import Progression.Authoring
import Progression.Directory
import Progression.Json.Reader
import Progression.Table
import Progression.Yaml

/-!
Rule tables as text. A document in one of two formats is a mapping from rule names to
expressions; it becomes a table only if every expression does.
-/

namespace Progression

inductive TableFormat
  | yaml | json
  deriving Repr, DecidableEq

namespace TableFormat

/-- The format that the extension of a path stands for. -/
def ofPath? (path : String) : Option TableFormat :=
  match Path.extension? path with
  | some "yaml" | some "yml" => some .yaml
  | some "json" => some .json
  | _ => none

/-- The members of a document in their order, with repeated names. -/
def members? (format : TableFormat) (text : String) : Option (List (String × Json)) :=
  match format with
  | .yaml => Yaml.members? text
  | .json =>
    match Json.parse? text with
    | some (.object members) => if Json.areReadable members then some members else none
    | _ => none

end TableFormat

inductive SourceError
  | unreadable
  | unsupported (path : String)
  | tooLarge (size : Nat)
  | malformed
  | badRule (name : String) (fault : Authoring.Fault)
  deriving Repr, DecidableEq

/-- The largest source in bytes. -/
def Table.sizeLimit : Nat := 1024 * 1024

def SourceError.message : SourceError → String
  | .unreadable => "table source io error"
  | .unsupported path => "unsupported table source extension: " ++ path
  | .tooLarge size =>
    "table source is " ++ toString size ++ " bytes, limit is " ++ toString Table.sizeLimit
  | .malformed => "table source parse error"
  | .badRule name .tooDeep => "rule `" ++ name ++ "` " ++ Authoring.Fault.tooDeep.message
  | .badRule name fault => "rule `" ++ name ++ "`: " ++ fault.message

namespace Table

/-- Reads expressions in their order, up to the first that is none. -/
def entries? : List (String × Json) → Except SourceError (List (String × Gate))
  | [] => .ok []
  | (name, j) :: members =>
    match Authoring.ruleGate j with
    | .error fault => .error (.badRule name fault)
    | .ok gate =>
      match entries? members with
      | .error e => .error e
      | .ok entries => .ok ((name, gate) :: entries)

def load (name : String) (format : TableFormat) (text : String) : Except SourceError Table :=
  if sizeLimit < text.utf8ByteSize then .error (.tooLarge text.utf8ByteSize)
  else
    match format.members? text with
    | none => .error .malformed
    | some members => (entries? members).map fun entries => { name, entries }

/-- Loads a file. The table is named after it. -/
def loadFile (directory : Directory) (path : String) : Except SourceError Table :=
  match TableFormat.ofPath? path with
  | none => .error (.unsupported path)
  | some format =>
    match directory.read? path with
    | none => .error .unreadable
    | some bytes =>
      if sizeLimit < bytes.size then .error (.tooLarge bytes.size)
      else
        match String.fromUTF8? bytes with
        | none => .error .malformed
        | some text => load ((Path.stem? path).getD path) format text

end Table

end Progression

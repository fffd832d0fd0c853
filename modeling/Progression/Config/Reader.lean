import Progression.Config
import Progression.Json.Printer
import Progression.Json.Reader
import Progression.Json.Record
import Progression.Toml

/-!
Settings as data and as files. Sections and fields that are left out have defaults, and
others than the known ones are refused.
-/

namespace Progression

namespace Config

namespace Exemptions

def fields : List String :=
  ["names", "prefixes", "suffixes", "contains", "patterns"]

def ofJson? (dialect : Json.Dialect) (j : Json) : Option Exemptions :=
  let list := Json.orDefault [] Json.texts?
  match Json.fields? dialect true fields j with
  | some [names, prefixes, suffixes, contains, patterns] =>
    return ⟨← list names, ← list prefixes, ← list suffixes, ← list contains, ← list patterns⟩
  | _ => none

def toJson (e : Exemptions) : Json :=
  .object (e.lists.map fun (field, entries) => (field, .strings entries))

end Exemptions

namespace Limits

def ofJson? (dialect : Json.Dialect) (j : Json) : Option Limits :=
  match Json.fields? dialect true ["max_flatten_rounds"] j with
  | some [rounds] =>
    (Json.orDefault ({} : Limits).maxFlattenRounds (Json.natural? UInt64.size) rounds).map .mk
  | _ => none

def toJson (limits : Limits) : Json :=
  .object [("max_flatten_rounds", .nat limits.maxFlattenRounds)]

end Limits

namespace SinkKind

def label : SinkKind → String
  | .none => "none"
  | .stderr => "stderr"
  | .file => "file"

def ofLabel? (label : String) : Option SinkKind :=
  [SinkKind.none, SinkKind.stderr, SinkKind.file].find? (·.label == label)

def ofJson? (dialect : Json.Dialect) (j : Json) : Option SinkKind :=
  (Json.choice? dialect j).bind ofLabel?

end SinkKind

namespace Logging

def path? : Json → Option (Option String)
  | .null => some none
  | j => (Json.text? j).map some

def ofJson? (dialect : Json.Dialect) (j : Json) : Option Logging :=
  match Json.fields? dialect true ["sink", "path"] j with
  | some [sink, path] =>
    return ⟨← Json.orDefault .none (SinkKind.ofJson? dialect) sink,
      ← Json.orDefault none path? path⟩
  | _ => none

def toJson (logging : Logging) : Json :=
  .object [("sink", .string logging.sink.label),
    ("path", (logging.path.map Json.string).getD .null)]

end Logging

def ofJson? (dialect : Json.Dialect) (j : Json) : Option Config :=
  match Json.fields? dialect true ["exemptions", "limits", "logging"] j with
  | some [exemptions, limits, logging] =>
    return ⟨← Json.orDefault {} (Exemptions.ofJson? dialect) exemptions,
      ← Json.orDefault {} (Limits.ofJson? dialect) limits,
      ← Json.orDefault {} (Logging.ofJson? dialect) logging⟩
  | _ => none

/-- Settings in JSON, whether or not they are valid. -/
def parseJson? (text : String) : Option Config :=
  (Json.parse? text).bind (ofJson? .json)

/-- Valid settings in TOML. -/
def parse (text : String) : Except ConfigError Config :=
  match (Toml.parse? text).bind (ofJson? Toml.dialect) with
  | none => .error .malformed
  | some config => config.validate.map fun _ => config

/-- The file that is read when none is asked for. -/
def defaultPath : String := "logic-graph.toml"

/-- Reads a file: the one that is asked for, else the one that the environment names. -/
def load (directory : Directory) (path environment : Option String) :
    Except ConfigError Config :=
  let path := (path.or environment).getD defaultPath
  if pathSizeLimit < path.utf8ByteSize then .error (.invalid .longFilePath)
  else if hasLongPart path then .error (.invalid .longFilePathPart)
  else
    match directory.read? path with
    | none => .error .unreadable
    | some bytes =>
      if sizeLimit < bytes.size then .error (.invalid .tooLarge)
      else
        match String.fromUTF8? bytes with
        | none => .error (.invalid .notText)
        | some text => parse text

end Config

end Progression

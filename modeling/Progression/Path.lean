/-!
Paths as text. The parts of a path stand between slashes; empty parts and single dots
mean nothing, and two dots step back.
-/

namespace Progression.Path

inductive Part
  | parent
  | name (s : String)
  deriving Repr, DecidableEq

def isAbsolute (path : String) : Bool :=
  path.toList.head? == some '/'

def ofPiece? (piece : List Char) : Option Part :=
  if piece.isEmpty || piece == ['.'] then none
  else if piece == ['.', '.'] then some .parent
  else some (.name (String.ofList piece))

/-- The pieces between slashes. -/
def pieces (path : String) : List (List Char) :=
  path.toList.splitOn '/'

def parts (path : String) : List Part :=
  (pieces path).filterMap ofPiece?

/-- The last part, unless it steps back. -/
def fileName? (path : String) : Option String :=
  match (parts path).getLast? with
  | some (.name s) => some s
  | _ => none

/-- A file name before its last dot, and the extension after it. A dot in front is part
of the name. -/
def splitName (name : String) : String × Option String :=
  let reversed := name.toList.reverse
  match reversed.dropWhile (· != '.') with
  | '.' :: stem@(_ :: _) =>
    (String.ofList stem.reverse, some (String.ofList (reversed.takeWhile (· != '.')).reverse))
  | _ => (name, none)

def extension? (path : String) : Option String :=
  (fileName? path).bind fun name => (splitName name).2

/-- The file name without its extension. -/
def stem? (path : String) : Option String :=
  (fileName? path).map fun name => (splitName name).1

end Progression.Path

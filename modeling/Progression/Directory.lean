import Progression.Path

/-!
A working directory: folders and files below one place, and nothing outside of it. All
paths are read relative to that place.
-/

namespace Progression

inductive Directory.Entry
  | folder
  | file (content : ByteArray)

structure Directory where
  /-- Where each folder and file is, below the working directory itself. -/
  entries : List (List String × Directory.Entry) := []

namespace Directory

/-- A path of this many bytes is refused. -/
def pathLimit : Nat := 4096

/-- The longest name of a file or folder, in bytes. -/
def nameLimit : Nat := 255

def entry? (d : Directory) (place : List String) : Option Entry :=
  (d.entries.find? (·.1 == place)).map (·.2)

def isFolder (d : Directory) (place : List String) : Bool :=
  match place, d.entry? place with
  | [], _ => true
  | _, some .folder => true
  | _, _ => false

/-- Goes on from a place by one piece of a path. Only folders can be left, in either
direction. -/
def walk (d : Directory) (place : List String) (piece : List Char) : Option (List String) :=
  if d.isFolder place then
    match Path.ofPiece? piece with
    | none => some place
    | some .parent => if place.isEmpty then none else some place.dropLast
    | some (.name s) =>
      if s.utf8ByteSize ≤ nameLimit ∧ '\x00' ∉ s.toList then some (place ++ [s]) else none
  else none

/-- The place that a path names, whether or not something is there. -/
def locate? (d : Directory) (path : String) : Option (List String) :=
  if path.isEmpty || Path.isAbsolute path || pathLimit ≤ path.utf8ByteSize then none
  else (Path.pieces path).foldlM d.walk []

def read? (d : Directory) (path : String) : Option ByteArray := do
  match ← d.entry? (← d.locate? path) with
  | .file content => some content
  | .folder => none

def set (d : Directory) (place : List String) (e : Entry) : Directory :=
  ⟨(place, e) :: d.entries.filter (·.1 != place)⟩

/-- Writes a file, with the folders on the way to it. -/
def write (d : Directory) (path : String) (content : ByteArray) : Directory :=
  let (place, d) := (Path.parts path).foldl (fun (place, d) part =>
    match part with
    | .parent => (place.dropLast, d)
    | .name s =>
      let d := if d.isFolder place then d else d.set place .folder
      (place ++ [s], d)) ([], d)
  d.set place (.file content)

/-- Opens a file for lines to be added at its end, and creates it if its folder exists. -/
def openFile? (d : Directory) (path : String) : Option (List String × Directory) := do
  let place ← d.locate? path
  if d.isFolder place then none
  else if (Path.pieces path).getLast? == some [] then none
  else
    match d.entry? place with
    | some _ => some (place, d)
    | none => if d.isFolder place.dropLast then some (place, d.set place (.file .empty)) else none

def append (d : Directory) (place : List String) (text : String) : Directory :=
  match d.entry? place with
  | some (.file content) => d.set place (.file (content ++ text.toUTF8))
  | _ => d

end Directory

end Progression

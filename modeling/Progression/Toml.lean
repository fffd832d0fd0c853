import Progression.Toml.Word

/-!
Reading TOML: a document is a list of headers and of keys with values, one a line.
-/

namespace Progression.Toml

/-- Arrays and inline tables may nest this deep. -/
def maxDepth : Nat := 80

mutual

/-- A value inside `level` containers. Twice as much fuel as there are characters is enough,
here and below. -/
def value? (level : Nat) : Nat → List Char → Option (Item × List Char)
  | 0, _ => none
  | fuel + 1, cs =>
    match cs with
    | '"' :: _ | '\'' :: _ => (string? fuel cs).map fun (s, rest) => (.string s, rest)
    | '[' :: cs => if level < maxDepth then items? (level + 1) [] fuel cs else none
    | '{' :: cs => if level < maxDepth then entries? (level + 1) [] fuel cs else none
    | cs => scalar? fuel cs

/-- The items of an array, up to its bracket; `items` are those so far, newest first. -/
def items? (level : Nat) (items : List Item) : Nat → List Char → Option (Item × List Char)
  | 0, _ => none
  | fuel + 1, cs =>
    match dropSpace cs with
    | ']' :: rest => some (.array items.reverse, rest)
    | cs =>
      match value? level fuel cs with
      | none => none
      | some (item, rest) =>
        match dropSpace rest with
        | ',' :: rest => items? level (item :: items) fuel rest
        | ']' :: rest => some (.array (item :: items).reverse, rest)
        | _ => none

/-- The entries of an inline table, up to its brace. They may run over several lines, but
not inside a key. -/
def entries? (level : Nat) (entries : Entries) : Nat → List Char → Option (Item × List Char)
  | 0, _ => none
  | fuel + 1, cs =>
    match dropSpace cs with
    | '}' :: rest => some (.inline entries, rest)
    | cs =>
      match (key? [] fuel cs).map fun (keys, rest) => (keys, dropSpace rest) with
      | some (keys, '=' :: rest) =>
        match value? level fuel (dropSpace rest) with
        | none => none
        | some (item, rest) =>
          match Entries.put? item keys entries with
          | none => none
          | some entries =>
            match dropSpace rest with
            | ',' :: rest => entries? level entries fuel rest
            | '}' :: rest => some (.inline entries, rest)
            | _ => none
      | _ => none

end

/-- A document up to some place. -/
structure Draft where
  root : Entries := []
  /-- The header above that place. -/
  header : List String := []

namespace Draft

def addEntry? (d : Draft) (keys : List String) (value : Item) : Option Draft :=
  let root := if d.header.isEmpty then Entries.put? value keys d.root
    else Entries.edit? (Item.put? keys value) d.header d.root
  root.map ({ d with root := · })

def addHeader? (d : Draft) (change : Option Item → Option Item) (header : List String) :
    Option Draft :=
  (Entries.edit? change header d.root).map (⟨·, header⟩)

/-- What stands in one line, a header or a key with its value. Values may go on in the lines
that follow. -/
def statement? (d : Draft) (fuel : Nat) (cs : List Char) : Option (Draft × List Char) :=
  match cs with
  | '[' :: '[' :: cs =>
    match key? [] fuel (dropBlanks cs) with
    | some (keys, ']' :: ']' :: rest) => (d.addHeader? Item.addTable? keys).map (·, rest)
    | _ => none
  | '[' :: cs =>
    match key? [] fuel (dropBlanks cs) with
    | some (keys, ']' :: rest) => (d.addHeader? Item.declare? keys).map (·, rest)
    | _ => none
  | cs =>
    match key? [] fuel cs with
    | some (keys, '=' :: rest) =>
      match value? 0 fuel (dropBlanks rest) with
      | some (item, rest) => (d.addEntry? keys item).map (·, rest)
      | none => none
    | _ => none

def run? (d : Draft) : Nat → List Char → Option Draft
  | 0, _ => none
  | fuel + 1, cs =>
    match dropSpace cs with
    | [] => some d
    | cs =>
      match d.statement? fuel cs with
      | none => none
      | some (d, rest) =>
        match dropComment (dropBlanks rest) with
        | [] => some d
        | rest =>
          match lineEnd? rest with
          | some rest => run? d fuel rest
          | none => none

end Draft

/-- The document as data. A byte order mark in front of it does not count. -/
def parse? (text : String) : Option Json :=
  let cs := match text.toList with
    | '\uFEFF' :: cs => cs
    | cs => cs
  (Draft.run? {} (2 * cs.length + 2) cs).map fun d => .object (Item.entriesToJson d.root)

/-- A list may hold more than the fields of a record, and a choice without data may have
an empty list or table behind its name. -/
def dialect : Json.Dialect where
  extraItems := true
  isUnit
    | .array [] | .object [] => true
    | _ => false

end Progression.Toml

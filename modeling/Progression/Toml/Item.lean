import Progression.Json.Record

/-!
The contents of a TOML document. A table can be opened only once, so every table knows how
it came about; what a header or a dotted key may still do with it depends on that.
-/

namespace Progression.Toml

/-- How a table came about. -/
inductive Origin
  /-- It has a header of its own. -/
  | declared
  /-- A longer header goes through it. -/
  | implied
  /-- A dotted key goes through it. -/
  | dotted
  deriving Repr, DecidableEq

inductive Item
  | string (s : String)
  | integer (n : Int)
  /-- A truth value, a fraction, a date or a number without a value; settings have none of
  them. -/
  | plain
  | array (items : List Item)
  | inline (entries : List (String × Item))
  | table (origin : Origin) (entries : List (String × Item))
  /-- Tables with the same header; the last one is the one that grows. The earlier ones come
  newest first. -/
  | tables (earlier : List (List (String × Item))) (last : List (String × Item))
  deriving Repr, Inhabited

/-- Keys are not repeated. -/
abbrev Entries := List (String × Item)

namespace Entries

def get? (entries : Entries) (key : String) : Option Item :=
  (entries.find? (·.1 == key)).map (·.2)

def set (entries : Entries) (key : String) (item : Item) : Entries :=
  if entries.any (·.1 == key) then
    entries.map fun e => if e.1 == key then (key, item) else e
  else entries ++ [(key, item)]

/-- Adds a value under a dotted key. The tables on the way must not have a header, and the
one that receives the value belongs to dotted keys alone. -/
def put? (value : Item) : List String → Entries → Option Entries
  | [], _ => none
  | [key], entries => if (entries.get? key).isSome then none else some (entries.set key value)
  | key :: next :: rest, entries =>
    match entries.get? key with
    | none => (put? value (next :: rest) []).map fun sub => entries.set key (.table .dotted sub)
    | some (.table .dotted sub) =>
      (put? value (next :: rest) sub).map fun sub => entries.set key (.table .dotted sub)
    | some (.table .implied sub) =>
      if rest.isEmpty then none
      else (put? value (next :: rest) sub).map fun sub => entries.set key (.table .implied sub)
    | some (.tables earlier last) =>
      if rest.isEmpty then none
      else (put? value (next :: rest) last).map fun last => entries.set key (.tables earlier last)
    | _ => none

/-- Changes what stands at the end of a header's path, and makes tables on the way. -/
def edit? (change : Option Item → Option Item) : List String → Entries → Option Entries
  | [], _ => none
  | [key], entries => (change (entries.get? key)).map (entries.set key)
  | key :: next :: rest, entries =>
    match entries.get? key with
    | none => (edit? change (next :: rest) []).map fun sub => entries.set key (.table .implied sub)
    | some (.table origin sub) =>
      (edit? change (next :: rest) sub).map fun sub => entries.set key (.table origin sub)
    | some (.tables earlier last) =>
      (edit? change (next :: rest) last).map fun last => entries.set key (.tables earlier last)
    | _ => none

end Entries

namespace Item

/-- The item once its header has been read. -/
def declare? : Option Item → Option Item
  | none => some (.table .declared [])
  | some (.table .implied entries) => some (.table .declared entries)
  | _ => none

/-- The item once a header for one more table has been read. -/
def addTable? : Option Item → Option Item
  | none => some (.tables [] [])
  | some (.tables earlier last) => some (.tables (last :: earlier) [])
  | _ => none

/-- Adds a value to a table. -/
def put? (keys : List String) (value : Item) : Option Item → Option Item
  | some (.table origin entries) => (Entries.put? value keys entries).map (.table origin)
  | some (.tables earlier last) => (Entries.put? value keys last).map (.tables earlier)
  | _ => none

mutual

def toJson : Item → Json
  | .string s => .string s
  | .integer (.ofNat n) => .nat n
  | .integer (.negSucc n) => .number (.negative (n + 1))
  | .plain => .unreadable
  | .array items => .array (listToJson items)
  | .inline entries | .table _ entries => .object (entriesToJson entries)
  | .tables earlier last =>
    .array ((.object (entriesToJson last) :: tablesToJson earlier).reverse)

def listToJson : List Item → List Json
  | [] => []
  | i :: is => i.toJson :: listToJson is

def entriesToJson : List (String × Item) → List (String × Json)
  | [] => []
  | (key, i) :: es => (key, i.toJson) :: entriesToJson es

def tablesToJson : List (List (String × Item)) → List Json
  | [] => []
  | es :: ts => .object (entriesToJson es) :: tablesToJson ts

end

end Item

end Progression.Toml

import Progression.Json.Basic

/-!
Typed data in JSON. A record is an object with a member for every field, or a list of the
fields in their order; a choice is a name, or an object whose only key is that name.
-/

namespace Progression.Json

/-- Where data formats differ in what they take for a record or a choice. -/
structure Dialect where
  /-- A list may go on after the last field. -/
  extraItems : Bool
  /-- Stands behind the name of a choice that carries no data. -/
  isUnit : Json → Bool

def text? : Json → Option String
  | .string s => some s
  | _ => none

/-- A plain whole number below a bound. -/
def natural? (bound : Nat) : Json → Option Nat
  | .number (.natural n) => if n < bound then some n else none
  | _ => none

def list? {α : Type} (item : Json → Option α) : Json → Option (List α)
  | .array items => items.mapM item
  | _ => none

def texts? : Json → Option (List String) :=
  list? text?

def isNull : Json → Bool
  | .null => true
  | _ => false

/-- The strict reading of JSON text. -/
def Dialect.json : Dialect := ⟨false, isNull⟩

def lookup? (key : String) (members : List (String × Json)) : Option Json :=
  (members.find? (·.1 == key)).map (·.2)

/-- Some field is given twice. -/
def repeatsField (names : List String) (members : List (String × Json)) : Bool :=
  names.any fun name => 1 < members.countP (·.1 == name)

/-- The fields of a record, those left out being none. Members that are no fields are
refused when `closed`. -/
def fields? (dialect : Dialect) (closed : Bool) (names : List String) :
    Json → Option (List (Option Json))
  | .object members =>
    if repeatsField names members || (closed && members.any (!names.contains ·.1)) then none
    else some (names.map (lookup? · members))
  | .array items =>
    if names.length < items.length && !dialect.extraItems then none
    else some (names.zipIdx.map fun (_, i) => items[i]?)
  | _ => none

/-- The value of a field that may be left out. -/
def orDefault {α : Type} (default : α) (read : Json → Option α) : Option Json → Option α
  | none => some default
  | some j => read j

/-- The name of a choice without data. -/
def choice? (dialect : Dialect) : Json → Option String
  | .string name => some name
  | .object [(name, body)] => if dialect.isUnit body then some name else none
  | _ => none

end Progression.Json

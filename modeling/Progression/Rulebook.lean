import Progression.Table

/-!
Rulebooks: the rules of several tables under one vocabulary. Tables mention each other's
names, so they are merged before anything else happens, and a name with two rules is
refused.
-/

namespace Progression

structure Rule where
  name : String
  gate : Gate
  /-- The table that defines the rule. -/
  source : String
  placeable : Bool
  deriving Repr, DecidableEq, Inhabited

/-- The rules in the order of their names. -/
structure Rulebook where
  rules : List Rule := []
  deriving Repr, DecidableEq

inductive MergeError
  | duplicateName (name firstTable secondTable : String)
  deriving Repr, DecidableEq

def MergeError.message : MergeError → String
  | .duplicateName name first second =>
    "duplicate logic key `" ++ name ++ "` (defined in `" ++ first ++ "` and `" ++ second ++ "`)"

def Table.rules (table : Table) : List Rule :=
  table.entries.map fun (name, gate) => ⟨name, gate, table.name, table.placeable⟩

namespace Rulebook

/-- The first rule whose name one of the rules before it has, with that earlier rule. -/
def clash? (seen : List Rule) : List Rule → Option (Rule × Rule)
  | [] => none
  | r :: rs =>
    match seen.find? (·.name == r.name) with
    | some first => some (first, r)
    | none => clash? (r :: seen) rs

def byName (r s : Rule) : Bool :=
  decide (r.name ≤ s.name)

def ofTables (tables : List Table) : Except MergeError Rulebook :=
  let rules := tables.flatMap Table.rules
  match clash? [] rules with
  | some (first, second) => .error (.duplicateName second.name first.source second.source)
  | none => .ok ⟨rules.mergeSort byName⟩

def find? (book : Rulebook) (name : String) : Option Rule :=
  book.rules.find? (·.name == name)

def names (book : Rulebook) : List String :=
  book.rules.map Rule.name

/-- Every name that some rule mentions, at any depth. -/
def references (book : Rulebook) : List String :=
  book.rules.flatMap fun r => r.gate.references

def size (book : Rulebook) : Nat :=
  book.rules.length

end Rulebook

end Progression

import Std.Data.TreeSet
import Progression.Rulebook
import Progression.Flat

/-!
Flattening. Every gate written in place becomes a rule of its own, named after the rule it
stands in with a number behind it, and its place is taken by that name. New rules may hold
gates in turn, so this goes on in rounds, each of which takes away one level of nesting.
-/

namespace Progression

/-- A rule whose parents are all names. -/
structure FlatRule where
  name : String
  kind : Kind
  parents : List String
  source : String
  placeable : Bool
  deriving Repr, DecidableEq

namespace Flatten

/-- The name of the `k`-th gate inside the rule `owner`. -/
def numbered (owner : String) (k : Nat) : String :=
  owner ++ " " ++ toString k

/-- The first number from `k` on whose name is not taken. A name that was met cannot be
met again, so it is dropped from the search. -/
def freeNumber (owner : String) (taken : Std.TreeSet String) (k : Nat) : Nat :=
  if taken.contains (numbered owner k) then
    freeNumber owner (taken.erase (numbered owner k)) (k + 1)
  else k
termination_by taken.size
decreasing_by
  have hsize : taken.size ≠ 0 := by
    have := Std.TreeSet.isEmpty_eq_false_of_contains ‹_›
    simpa [Std.TreeSet.isEmpty_eq_size_eq_zero] using this
  rw [Std.TreeSet.size_erase, if_pos ‹_›]
  omega

/-- Replaces the gates among the parents of `owner` by names, from the number after `k`
on. Returns all parents as names, and the new rules. Two owners never give the same name,
for a number holds no blank; so the names that are given need not be added to `taken`. -/
def liftParents (owner : Rule) (taken : Std.TreeSet String) (k : Nat) :
    List Parent → List String × List Rule
  | [] => ([], [])
  | .named name :: ps =>
    let (names, lifted) := liftParents owner taken k ps
    (name :: names, lifted)
  | .inline kind parents :: ps =>
    let k := freeNumber owner.name taken (k + 1)
    let name := numbered owner.name k
    let (names, lifted) := liftParents owner taken k ps
    (name :: names, ⟨name, ⟨kind, parents⟩, owner.source, false⟩ :: lifted)

/-- A rule whose gates are taken out, and the rules made of them. -/
def lift (taken : Std.TreeSet String) (r : Rule) : FlatRule × List Rule :=
  let (parents, lifted) := liftParents r taken 0 r.gate.parents
  (⟨r.name, r.gate.kind, parents, r.source, r.placeable⟩, lifted)

/-- Runs rounds until one of them lifts nothing; none if more than `left` rounds lift
something. -/
def rounds (left : Nat) (taken : Std.TreeSet String) (pending : List Rule) :
    Option (List FlatRule × FlattenStats) :=
  let (flat, lifted) := (pending.map (lift taken)).unzip
  let lifted := lifted.flatten
  if lifted.isEmpty then some (flat, {})
  else
    match left with
    | 0 => none
    | left + 1 =>
      (rounds left taken lifted).map fun (later, stats) =>
        (flat ++ later, ⟨stats.rounds + 1, stats.synthesized + lifted.length⟩)

def byName (r s : FlatRule) : Bool :=
  decide (r.name ≤ s.name)

/-- The deepest nesting of gates in any rule. -/
def deepest (book : Rulebook) : Nat :=
  book.rules.foldl (fun d r => max d r.gate.depth) 0

/-- Adds a rule. Parents that are new to the table get their symbols here. -/
def addRule (table : FlatTable) (r : FlatRule) : FlatTable :=
  let (table, s) := table.intern r.name
  let (table, parents) := table.internAll r.parents
  table.define s ⟨r.kind, parents, [], r.source, r.placeable⟩

/-- The table of rules that are in the order of their names. Rules have the first symbols
in that order; names without a rule follow as they are met. -/
def ofRules (rules : List FlatRule) (stats : FlattenStats) : FlatTable :=
  let table := rules.foldl (fun t r => (t.intern r.name).1) { stats }
  rules.foldl addRule table

end Flatten

/-- Flattens a rulebook in at most `cap` rounds, or as many as its nesting is deep if that
is more. Names that are defined or mentioned anywhere are not given again. -/
def Rulebook.flatten? (book : Rulebook) (cap : Nat) : Option FlatTable :=
  let taken := Std.TreeSet.ofList (book.names ++ book.references)
  (Flatten.rounds (max cap (Flatten.deepest book)) taken book.rules).map
    fun (rules, stats) => Flatten.ofRules (rules.mergeSort Flatten.byName) stats

end Progression

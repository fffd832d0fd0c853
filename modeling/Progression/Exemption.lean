import Progression.Flat
import Progression.Inventory
import Progression.Pattern

/-!
Exemptions: rules by which a node may go unused. The rules of a policy are tried in a
fixed order, and the first that matches a name is the one that exempts it.
-/

namespace Progression

inductive Exemption
  | name (s : String)
  | leading (s : String)
  | trailing (s : String)
  | inside (s : String)
  | pattern (p : Pattern)

namespace Exemption

/-- `s` occurs somewhere in the text. -/
def occursIn (s : List Char) : List Char → Bool
  | [] => s.isEmpty
  | c :: cs => s.isPrefixOf (c :: cs) || occursIn s cs

def isMatch (rule : Exemption) (name : String) : Bool :=
  match rule with
  | .name s => name == s
  | .leading s => s.toList.isPrefixOf name.toList
  | .trailing s => s.toList.isSuffixOf name.toList
  | .inside s => occursIn s.toList name.toList
  | .pattern p => p.isMatch name

def value : Exemption → String
  | .name s | .leading s | .trailing s | .inside s => s
  | .pattern p => p.source

def display : Exemption → String
  | .name s => "name `" ++ s ++ "`"
  | .leading s => "prefix `" ++ s ++ "`"
  | .trailing s => "suffix `" ++ s ++ "`"
  | .inside s => "substring `" ++ s ++ "`"
  | .pattern p => "pattern `" ++ p.source ++ "`"

end Exemption

inductive ExemptionError
  | invalidPattern (pattern : String)
  | empty (field : String)
  deriving Repr, DecidableEq

def ExemptionError.message : ExemptionError → String
  | .invalidPattern pattern => "invalid exemption pattern `" ++ pattern ++ "`"
  | .empty field => "empty exemption " ++ field ++ " entry"

structure Policy where
  /-- In order and without repetition. -/
  names : List String := []
  leading : List String := []
  trailing : List String := []
  inside : List String := []
  patterns : List Pattern := []

namespace Policy

def addName (policy : Policy) (s : String) : Policy :=
  { policy with names := Inventory.place s policy.names }

def addLeading (policy : Policy) (s : String) : Policy :=
  { policy with leading := policy.leading ++ [s] }

def addTrailing (policy : Policy) (s : String) : Policy :=
  { policy with trailing := policy.trailing ++ [s] }

def addInside (policy : Policy) (s : String) : Policy :=
  { policy with inside := policy.inside ++ [s] }

/-- Adds the pattern that `compile?` makes of a text. -/
def addPatternBy (compile? : String → Option Pattern) (policy : Policy) (s : String) :
    Except ExemptionError Policy :=
  match compile? s with
  | some p => .ok { policy with patterns := policy.patterns ++ [p] }
  | none => .error (.invalidPattern s)

def addPattern (policy : Policy) (s : String) : Except ExemptionError Policy :=
  policy.addPatternBy Pattern.compile? s

/-- All rules: names, then beginnings, ends, parts and patterns. -/
def rules (policy : Policy) : List Exemption :=
  policy.names.map .name ++ policy.leading.map .leading ++ policy.trailing.map .trailing
    ++ policy.inside.map .inside ++ policy.patterns.map .pattern

/-- The rule that exempts a name. A listed name is looked up before anything else. -/
def exemptionFor? (policy : Policy) (name : String) : Option Exemption :=
  if name ∈ policy.names then some (.name name)
  else
    ((policy.leading.map Exemption.leading).find? (·.isMatch name)).or <|
    ((policy.trailing.map Exemption.trailing).find? (·.isMatch name)).or <|
    ((policy.inside.map Exemption.inside).find? (·.isMatch name)).or <|
    (policy.patterns.map Exemption.pattern).find? (·.isMatch name)

def isExempt (policy : Policy) (name : String) : Bool :=
  (policy.exemptionFor? name).isSome

/-- Rules that match no node of the table. -/
def unused (policy : Policy) (table : FlatTable) : List Exemption :=
  let names := table.defined.map fun (s, _) => table.name s
  let idleNames := policy.names.filter fun s => !names.contains s
  let idleLeading := policy.leading.filter fun s =>
    !names.any fun name => s.toList.isPrefixOf name.toList
  let idleTrailing := policy.trailing.filter fun s =>
    !names.any fun name => s.toList.isSuffixOf name.toList
  let idleInside := policy.inside.filter fun s =>
    !names.any fun name => Exemption.occursIn s.toList name.toList
  let idlePatterns := policy.patterns.filter fun p => !names.any p.isMatch
  idleNames.map .name ++ idleLeading.map .leading ++ idleTrailing.map .trailing
    ++ idleInside.map .inside ++ idlePatterns.map .pattern

/-- Refuses entries that would match everything, or the node without a name. -/
def check (policy : Policy) : Except ExemptionError Unit := do
  if "" ∈ policy.leading then throw (.empty "prefix")
  if "" ∈ policy.trailing then throw (.empty "suffix")
  if "" ∈ policy.inside then throw (.empty "contains")
  if "" ∈ policy.names then throw (.empty "name")

end Policy

end Progression

/-!
Kinds of gates. A kind says how a gate combines its parents and which part its node
plays in the game: a slot holds an item, a step is an event of the story, and a hard
gate opens only for players who accept difficult tricks.
-/

namespace Progression

inductive Kind
  | root | and | or | andSlot | orSlot | andStep | orStep | hardAnd | hardOr
  | count (min : UInt32)
  deriving DecidableEq, Repr, Inhabited

/-- How many of its parents a gate asks for. -/
inductive Combinator
  | all
  | any
  | atLeast (min : UInt32)
  deriving DecidableEq, Repr

namespace Kind

/-- The kinds that a label alone names. -/
def labelled : List Kind :=
  [.root, .and, .or, .andSlot, .orSlot, .andStep, .orStep, .hardAnd, .hardOr]

def label : Kind → String
  | .root => "root"
  | .and => "and"
  | .or => "or"
  | .andSlot => "and_slot"
  | .orSlot => "or_slot"
  | .andStep => "and_step"
  | .orStep => "or_step"
  | .hardAnd => "hard_and"
  | .hardOr => "hard_or"
  | .count _ => "count"

/-- The kind of a label. A threshold has to be given beside the label `count`, so that
label names no kind by itself. -/
def ofLabel? (label : String) : Option Kind :=
  labelled.find? (·.label == label)

/-- The label, with the threshold of a count gate in parentheses. -/
def display : Kind → String
  | .count min => "count(" ++ toString min.toNat ++ ")"
  | kind => kind.label

def combinator : Kind → Combinator
  | .root | .and | .andSlot | .andStep | .hardAnd => .all
  | .or | .orSlot | .orStep | .hardOr => .any
  | .count min => .atLeast min

def isRoot : Kind → Bool
  | .root => true
  | _ => false

def isSlot : Kind → Bool
  | .andSlot | .orSlot => true
  | _ => false

def isStep : Kind → Bool
  | .andStep | .orStep => true
  | _ => false

def isHard : Kind → Bool
  | .hardAnd | .hardOr => true
  | _ => false

def isCount : Kind → Bool
  | .count _ => true
  | _ => false

@[simp] theorem isRoot_eq_true_iff {kind : Kind} : kind.isRoot = true ↔ kind = .root := by
  cases kind <;> simp [isRoot]

@[simp] theorem mem_labelled_iff {kind : Kind} : kind ∈ labelled ↔ kind.isCount = false := by
  cases kind <;> simp [labelled, isCount]

theorem ofLabel?_label {kind : Kind} (h : kind.isCount = false) :
    ofLabel? kind.label = some kind := by
  cases kind <;> simp_all [isCount] <;> decide

theorem ofLabel?_eq_some_iff {label : String} {kind : Kind} :
    ofLabel? label = some kind ↔ kind ∈ labelled ∧ kind.label = label := by
  constructor
  · intro h
    have hlabel := List.find?_some (p := fun k : Kind => k.label == label) h
    exact ⟨List.mem_of_find?_eq_some h, beq_iff_eq.1 hlabel⟩
  · rintro ⟨hmem, rfl⟩
    exact ofLabel?_label (mem_labelled_iff.1 hmem)

end Kind

end Progression

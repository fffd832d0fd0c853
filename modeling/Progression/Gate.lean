import Progression.Kind

/-!
Gates as rule authors write them. A gate has a kind and a list of parents; a parent is
the name of another rule or a gate written in place, so gates nest.
-/

namespace Progression

inductive Parent
  | named (name : String)
  | inline (kind : Kind) (parents : List Parent)
  deriving Repr, Inhabited

structure Gate where
  kind : Kind
  parents : List Parent := []
  deriving Repr, Inhabited

namespace Parent

mutual

def decEq : (p q : Parent) → Decidable (p = q)
  | .named a, .named b =>
    if h : a = b then isTrue (h ▸ rfl) else isFalse (by simpa using h)
  | .inline k ps, .inline l qs =>
    if h : k = l then
      match decEqList ps qs with
      | isTrue h' => isTrue (h ▸ h' ▸ rfl)
      | isFalse h' => isFalse (by simp [h'])
    else isFalse (by simp [h])
  | .named _, .inline _ _ => isFalse (by simp)
  | .inline _ _, .named _ => isFalse (by simp)

def decEqList : (ps qs : List Parent) → Decidable (ps = qs)
  | [], [] => isTrue rfl
  | p :: ps, q :: qs =>
    match decEq p q, decEqList ps qs with
    | isTrue h, isTrue h' => isTrue (h ▸ h' ▸ rfl)
    | isFalse h, _ => isFalse (by simp [h])
    | _, isFalse h => isFalse (by simp [h])
  | [], _ :: _ => isFalse (by simp)
  | _ :: _, [] => isFalse (by simp)

end

instance : DecidableEq Parent := decEq

def isInline : Parent → Bool
  | .named _ => false
  | .inline _ _ => true

def name? : Parent → Option String
  | .named name => some name
  | .inline _ _ => none

mutual

/-- How many gates written in place sit inside each other, this one included. -/
def depth : Parent → Nat
  | .named _ => 0
  | .inline _ parents => depthAll parents + 1

def depthAll : List Parent → Nat
  | [] => 0
  | p :: ps => max p.depth (depthAll ps)

end

mutual

/-- Every name that is mentioned, at any depth, in reading order. -/
def references : Parent → List String
  | .named name => [name]
  | .inline _ parents => referencesAll parents

def referencesAll : List Parent → List String
  | [] => []
  | p :: ps => p.references ++ referencesAll ps

end

end Parent

namespace Gate

deriving instance DecidableEq for Gate

def root : Gate := ⟨.root, []⟩

/-- Opens once `min` of the producers of `resource` are available. -/
def count (min : UInt32) (resource : String) : Gate :=
  ⟨.count min, [.named resource]⟩

/-- The gate as a parent written in place. -/
def inline (gate : Gate) : Parent :=
  .inline gate.kind gate.parents

/-- The gate with one more parent at the end. -/
def push (gate : Gate) (parent : Parent) : Gate :=
  { gate with parents := gate.parents ++ [parent] }

/-- The gate with more parents at the end. -/
def append (gate : Gate) (parents : List Parent) : Gate :=
  { gate with parents := gate.parents ++ parents }

def hasInline (gate : Gate) : Bool :=
  gate.parents.any Parent.isInline

/-- The names among the gate's own parents; gates written in place are not entered. -/
def named (gate : Gate) : List String :=
  gate.parents.filterMap Parent.name?

def depth (gate : Gate) : Nat :=
  Parent.depthAll gate.parents

def references (gate : Gate) : List String :=
  Parent.referencesAll gate.parents

end Gate

end Progression

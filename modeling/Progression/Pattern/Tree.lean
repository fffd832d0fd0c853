import Progression.Pattern.CharSet

/-!
Patterns as trees. Whether a repetition prefers many or few rounds is not kept, since a
pattern is only asked whether it occurs.
-/

namespace Progression

/-- A condition on the characters around a place. -/
inductive Look
  | textStart | textEnd
  | lineStart | lineEnd
  /-- Lines that end with a carriage return, a line feed or both in this order. -/
  | crlfLineStart | crlfLineEnd
  | wordEdge | noWordEdge
  | wordStart | wordEnd
  | wordStartHalf | wordEndHalf
  deriving Repr, DecidableEq

/-- What a group that captures is known by. -/
structure Capture where
  /-- Groups count from one in the order in which they open. -/
  number : Nat
  name : Option String := none
  deriving Repr, DecidableEq

namespace Capture

/-- The size of the record that is kept for a group, in bytes. -/
def recordSize : Nat := 16

/-- What is kept of a name: its text and a number. -/
def nameSize (c : Capture) : Nat :=
  match c.name with
  | some name => name.utf8ByteSize + 4
  | none => 0

/-- The size of all records of groups. They are numbered up to the last, so there is one also
for a group that is gone. -/
def totalSize (captures : List Capture) : Nat :=
  recordSize * (captures.foldl (fun n c => max n c.number) 0 + 1)
    + captures.foldl (fun n c => n + c.nameSize) 0

end Capture

inductive Tree
  | empty
  | char (c : Char)
  | set (s : CharSet)
  | look (l : Look)
  | sequence (parts : List Tree)
  | choice (branches : List Tree)
  | repeated (min : Nat) (max : Option Nat) (body : Tree)
  | group (capture : Capture) (body : Tree)
  deriving Repr, Inhabited

namespace Tree

def ofParts : List Tree → Tree
  | [] => empty
  | [t] => t
  | ts => sequence ts

def ofBranches : List Tree → Tree
  | [t] => t
  | ts => choice ts

/-- Repetition; none if it can only be done no time, and the body if exactly once. -/
def times (min : Nat) (max : Option Nat) (body : Tree) : Tree :=
  if min = 0 ∧ max = some 0 then empty
  else if min = 1 ∧ max = some 1 then body
  else repeated min max body

mutual

/-- How many trees sit inside each other, leaves apart. -/
def depth : Tree → Nat
  | sequence ts | choice ts => depthAll ts + 1
  | repeated _ _ t | group _ t => t.depth + 1
  | _ => 0

def depthAll : List Tree → Nat
  | [] => 0
  | t :: ts => max t.depth (depthAll ts)

end

mutual

/-- The pattern can be met without a character. -/
def isNullable : Tree → Bool
  | empty | look _ => true
  | char _ | set _ => false
  | sequence ts => areNullable ts
  | choice ts => someNullable ts
  | repeated min _ t => min == 0 || t.isNullable
  | group _ t => t.isNullable

def areNullable : List Tree → Bool
  | [] => true
  | t :: ts => t.isNullable && areNullable ts

def someNullable : List Tree → Bool
  | [] => false
  | t :: ts => t.isNullable || someNullable ts

end

/-- The size of one state of an automaton, in bytes. -/
def stateSize : Nat := 32

/-- The size of an arrow that leaves a state with several of them. -/
def arrowSize : Nat := 4

/-- The size of a range of characters. -/
def rangeSize : Nat := 8

mutual

/-- The size of the automaton for a pattern. Repetition copies its body as many times as
the body may be needed. -/
def size : Tree → Nat
  | empty | char _ | look _ => stateSize
  | set s => stateSize + rangeSize * s.spans.length
  | sequence ts => sizeAll ts
  | choice ts => sizeAll ts + 2 * stateSize + arrowSize * ts.length
  | group _ t => t.size + 2 * stateSize
  | repeated 0 none t =>
    if t.isNullable then t.size + 3 * stateSize + 4 * arrowSize
    else t.size + stateSize + 2 * arrowSize
  | repeated min none t => min * t.size + stateSize + 2 * arrowSize
  | repeated 0 (some 1) t => t.size + 2 * stateSize + 2 * arrowSize
  | repeated min (some max) t =>
    if min = max then min * t.size
    else
      (if min = 0 then stateSize else min * t.size) + stateSize
        + (max - min) * (t.size + stateSize + 2 * arrowSize)

def sizeAll : List Tree → Nat
  | [] => 0
  | t :: ts => t.size + sizeAll ts

end

mutual

/-- The groups that are left in a tree. -/
def captures : Tree → List Capture
  | sequence ts | choice ts => capturesOfAll ts
  | repeated _ _ t => t.captures
  | group c t => c :: t.captures
  | _ => []

def capturesOfAll : List Tree → List Capture
  | [] => []
  | t :: ts => t.captures ++ capturesOfAll ts

end

/-- The size of the automaton with the group around all of it, its last state and its
records of groups. -/
def totalSize (t : Tree) : Nat :=
  let t := group ⟨0, none⟩ t
  t.size + stateSize + Capture.totalSize t.captures

end Tree

end Progression

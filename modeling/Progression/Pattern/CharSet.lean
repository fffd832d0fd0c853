/-!
Sets of characters as ranges of code points.
-/

namespace Progression

structure CharSet where
  /-- Closed ranges, ascending and apart. -/
  spans : List (Nat × Nat)
  deriving Repr, DecidableEq

namespace CharSet

/-- The last code point. -/
def lastCode : Nat := 0x10FFFF

/-- Joins ranges that overlap or touch. They have to be in the order of their starts. -/
def join (first last : Nat) : List (Nat × Nat) → List (Nat × Nat)
  | [] => [(first, last)]
  | (a, b) :: spans =>
    if a ≤ last + 1 then join first (max last b) spans else (first, last) :: join a b spans

def ofSpans (spans : List (Nat × Nat)) : CharSet :=
  match spans.mergeSort fun a b => decide (a.1 ≤ b.1) with
  | [] => ⟨[]⟩
  | (a, b) :: spans => ⟨join a b spans⟩

def containsCode (s : CharSet) (code : Nat) : Bool :=
  s.spans.any fun (first, last) => first ≤ code && code ≤ last

def contains (s : CharSet) (c : Char) : Bool :=
  s.containsCode c.toNat

/-- What the ranges leave out from `start` on. -/
def gaps (start : Nat) : List (Nat × Nat) → List (Nat × Nat)
  | [] => if start ≤ lastCode then [(start, lastCode)] else []
  | (first, last) :: spans =>
    if start < first then (start, first - 1) :: gaps (last + 1) spans else gaps (last + 1) spans

def complement (s : CharSet) : CharSet :=
  ⟨gaps 0 s.spans⟩

/-- The other case of the ASCII letters of a range. A range with letters of both cases
yields only those of its small letters. -/
def otherCase? : Nat × Nat → Option (Nat × Nat)
  | (first, last) =>
    if first ≤ 'z'.toNat ∧ 'a'.toNat ≤ last then
      some (max first 'a'.toNat - 32, min last 'z'.toNat - 32)
    else if first ≤ 'Z'.toNat ∧ 'A'.toNat ≤ last then
      some (max first 'A'.toNat + 32, min last 'Z'.toNat + 32)
    else none

def foldCase (s : CharSet) : CharSet :=
  ofSpans (s.spans ++ s.spans.filterMap otherCase?)

def span (first last : Char) : Nat × Nat :=
  (first.toNat, last.toNat)

def digit : List (Nat × Nat) := [span '0' '9']

def lower : List (Nat × Nat) := [span 'a' 'z']

def upper : List (Nat × Nat) := [span 'A' 'Z']

def word : List (Nat × Nat) := digit ++ upper ++ [span '_' '_'] ++ lower

def space : List (Nat × Nat) := [span '\t' '\r', span ' ' ' ']

/-- The classes that have a name between brackets and colons. -/
def named? : String → Option CharSet
  | "alnum" => some (ofSpans (digit ++ upper ++ lower))
  | "alpha" => some (ofSpans (upper ++ lower))
  | "ascii" => some (ofSpans [span '\x00' '\x7f'])
  | "blank" => some (ofSpans [span '\t' '\t', span ' ' ' '])
  | "cntrl" => some (ofSpans [span '\x00' '\x1f', span '\x7f' '\x7f'])
  | "digit" => some (ofSpans digit)
  | "graph" => some (ofSpans [span '!' '~'])
  | "lower" => some (ofSpans lower)
  | "print" => some (ofSpans [span ' ' '~'])
  | "punct" => some (ofSpans [span '!' '/', span ':' '@', span '[' '\x60', span '\x7b' '~'])
  | "space" => some (ofSpans space)
  | "upper" => some (ofSpans upper)
  | "word" => some (ofSpans word)
  | "xdigit" => some (ofSpans (digit ++ [span 'A' 'F', span 'a' 'f']))
  | _ => none

/-- The classes that have a letter behind a backslash. A capital stands for all others. -/
def lettered? : Char → Option CharSet
  | 'd' => some (ofSpans digit)
  | 's' => some (ofSpans space)
  | 'w' => some (ofSpans word)
  | 'D' => some (ofSpans digit).complement
  | 'S' => some (ofSpans space).complement
  | 'W' => some (ofSpans word).complement
  | _ => none

end CharSet

end Progression

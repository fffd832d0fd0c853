import Progression.Json.Basic
import Progression.Text.Hex

/-!
The words of a JSON text: punctuation, quoted text, numbers and the three names. Between
words stand blanks, tabs and line ends, and nothing else.
-/

namespace Progression.Json

inductive Token
  | leftBracket | rightBracket | leftBrace | rightBrace | colon | comma
  /-- Quoted text; none when it holds half of a surrogate pair. -/
  | text (s : Option String)
  | scalar (value : Json)
  deriving Repr, Inhabited

namespace Token

def isBlank (c : Char) : Bool :=
  c == ' ' || c == '\t' || c == '\n' || c == '\r'

/-- A character of quoted text, or half of a pair that an escape has written. -/
inductive Piece
  | char (c : Char)
  | high (unit : Nat)
  | low (unit : Nat)
  deriving Repr, DecidableEq

def Piece.ofUnit (unit : Nat) : Piece :=
  if 0xD800 ≤ unit ∧ unit < 0xDC00 then .high unit
  else if 0xDC00 ≤ unit ∧ unit < 0xE000 then .low unit
  else .char (Char.ofNat unit)

/-- Joins the halves of pairs, going backwards; none if a half stands alone. -/
def joinReversed (chars : List Char) : List Piece → Option (List Char)
  | [] => some chars
  | .char c :: ps => joinReversed (c :: chars) ps
  | .low l :: .high h :: ps =>
    joinReversed (Char.ofNat (0x10000 + (h - 0xD800) * 0x400 + (l - 0xDC00)) :: chars) ps
  | _ :: _ => none

def hexUnit? (a b c d : Char) : Option Nat := do
  let high := (← Text.hexDigit? a) * 16 + (← Text.hexDigit? b)
  let low := (← Text.hexDigit? c) * 16 + (← Text.hexDigit? d)
  return high * 256 + low

/-- What a letter after a backslash stands for. -/
def unescape? : Char → Option Char
  | '"' => some '"'
  | '\\' => some '\\'
  | '/' => some '/'
  | 'b' => some '\x08'
  | 'f' => some '\x0c'
  | 'n' => some '\n'
  | 'r' => some '\r'
  | 't' => some '\t'
  | _ => none

/-- Reads on to the closing quote. The pieces come newest first. -/
def quoted? (pieces : List Piece) : List Char → Option (List Piece × List Char)
  | '"' :: cs => some (pieces, cs)
  | '\\' :: 'u' :: a :: b :: c :: d :: cs =>
    match hexUnit? a b c d with
    | some unit => quoted? (.ofUnit unit :: pieces) cs
    | none => none
  | '\\' :: e :: cs =>
    match unescape? e with
    | some c => quoted? (.char c :: pieces) cs
    | none => none
  | c :: cs => if c < ' ' then none else quoted? (.char c :: pieces) cs
  | [] => none

def isNumberChar (c : Char) : Bool :=
  c.isDigit || c == '-' || c == '+' || c == '.' || c == 'e' || c == 'E'

def ofName? (letters : List Char) : Option Token :=
  if letters = "null".toList then some (.scalar .null)
  else if letters = "true".toList then some (.scalar (.bool true))
  else if letters = "false".toList then some (.scalar (.bool false))
  else none

def ofNumber? (cs : List Char) : Option Token :=
  match Number.read cs with
  | .malformed => none
  | .outOfRange => some (.scalar .unreadable)
  | .number n => some (.scalar (.number n))

def punctuation? : Char → Option Token
  | '[' => some .leftBracket
  | ']' => some .rightBracket
  | '{' => some .leftBrace
  | '}' => some .rightBrace
  | ':' => some .colon
  | ',' => some .comma
  | _ => none

/-- The word at the start of a text, with what follows it. -/
def first? (c : Char) (cs : List Char) : Option (Token × List Char) :=
  match punctuation? c with
  | some t => some (t, cs)
  | none =>
    if c = '"' then
      (quoted? [] cs).map fun (pieces, rest) =>
        (.text ((joinReversed [] pieces).map String.ofList), rest)
    else if c = '-' ∨ c.isDigit then
      (ofNumber? (c :: cs.takeWhile isNumberChar)).map (·, cs.dropWhile isNumberChar)
    else
      (ofName? (c :: cs.takeWhile Char.isAlpha)).map (·, cs.dropWhile Char.isAlpha)

theorem length_dropWhile_le {α : Type} (p : α → Bool) (l : List α) :
    (l.dropWhile p).length ≤ l.length :=
  (List.dropWhile_sublist p).length_le

theorem length_quoted? {ps qs : List Piece} {cs rest : List Char}
    (h : quoted? ps cs = some (qs, rest)) : rest.length ≤ cs.length := by
  fun_induction quoted? ps cs with
  | case1 => simp_all
  | case2 _ _ _ _ _ _ _ _ ih => have := ih h; simp; omega
  | case3 => simp at h
  | case4 _ _ _ _ _ _ ih => have := ih h; simp; omega
  | case5 => simp at h
  | case6 => simp at h
  | case7 _ _ _ _ _ _ _ ih => have := ih h; simp; omega
  | case8 => simp at h

/-- A word takes at least one character. -/
theorem length_first? {c : Char} {cs rest : List Char} {t : Token}
    (h : first? c cs = some (t, rest)) : rest.length ≤ cs.length := by
  unfold first? at h
  split at h
  · simp_all
  · split at h
    · obtain ⟨⟨ps, r⟩, hq, he⟩ := Option.map_eq_some_iff.1 h
      have := length_quoted? hq
      simp_all
    · split at h <;>
      · obtain ⟨u, _, he⟩ := Option.map_eq_some_iff.1 h
        simp only [Prod.mk.injEq] at he
        exact he.2 ▸ length_dropWhile_le _ _

end Token

end Progression.Json

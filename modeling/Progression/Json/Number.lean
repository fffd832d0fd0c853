/-!
JSON numbers. Only whole numbers of up to 64 bits carry a value here; every other number
is kept as it was written, since rules and settings use it for nothing but a refusal.
-/

namespace Progression.Json

inductive Number
  /-- Written with digits alone, below `2 ^ 64`. -/
  | natural (n : Nat)
  /-- The whole number `-n`, with `0 < n` and at most `2 ^ 63`. -/
  | negative (n : Nat)
  /-- A fraction, an exponent, a negative zero or a whole number of more than 64 bits. -/
  | real (lexeme : List Char)
  deriving DecidableEq, Repr, Inhabited

/-- The parts of a number as it is written. -/
structure Decimal where
  negative : Bool
  whole : List Char
  /-- The digits after the point; none when there is no point. -/
  fraction : List Char
  exponent : Option Int
  deriving DecidableEq, Repr

namespace Decimal

/-- Exponents with more digits than this many stand for are all equally far off. -/
def exponentBound : Nat := Nat.pow 10 10

def digitsValue (digits : List Char) : Nat :=
  digits.foldl (fun n d => min (n * 10 + (d.toNat - '0'.toNat)) exponentBound) 0

/-- The exponent after its letter: an optional sign and at least one digit. -/
def exponent? (cs : List Char) : Option Int :=
  let (negative, digits) := match cs with
    | '-' :: cs => (true, cs)
    | '+' :: cs => (false, cs)
    | cs => (false, cs)
  if !digits.isEmpty && digits.all Char.isDigit then
    let n : Int := digitsValue digits
    some (if negative then -n else n)
  else none

/-- The part after the whole number: a point with digits, an exponent, both or neither. -/
def tail? (cs : List Char) : Option (List Char × Option Int) := do
  let (fraction, cs) ← match cs with
    | '.' :: cs =>
      let fraction := cs.takeWhile Char.isDigit
      if fraction.isEmpty then none else some (fraction, cs.dropWhile Char.isDigit)
    | cs => some ([], cs)
  match cs with
  | [] => some (fraction, none)
  | c :: cs => if c = 'e' ∨ c = 'E' then return (fraction, some (← exponent? cs)) else none

/-- Reads a number; a leading zero stands alone before the point. -/
def ofChars? (cs : List Char) : Option Decimal := do
  let (negative, cs) := match cs with
    | '-' :: cs => (true, cs)
    | cs => (false, cs)
  let whole := cs.takeWhile Char.isDigit
  if whole.isEmpty || (whole.head? == some '0' && whole.length != 1) then none
  let (fraction, exponent) ← tail? (cs.dropWhile Char.isDigit)
  return ⟨negative, whole, fraction, exponent⟩

/-- Appends digits to a significand for as long as it fits 64 bits, and returns the
digits that are left over. -/
def absorb (significand : Nat) : List Char → Nat × List Char
  | [] => (significand, [])
  | d :: ds =>
    let next := significand * 10 + (d.toNat - '0'.toNat)
    if next < UInt64.size then absorb next ds else (significand, d :: ds)

/-- Rounds to 53 significant bits; a tie goes to the even neighbour. -/
def round53 (n : Nat) : Nat :=
  let shift := n.log2 - 52
  let unit := Nat.pow 2 shift
  let q := n / unit
  let r := n % unit
  if 2 * r < unit ∨ (2 * r = unit ∧ q % 2 = 0) then q * unit else (q + 1) * unit

/-- The least number that rounds to no finite double. -/
def beyondDouble : Nat := Nat.pow 2 1024 - Nat.pow 2 970

/-- Too large for a double. The significand is cut to 64 bits and multiplied by a power
of ten, both rounded first, so the last places of the limit are those of that product. -/
def overflows (d : Decimal) : Bool :=
  let (m, skipped) := absorb 0 d.whole
  let (m, skippedFraction) := absorb m d.fraction
  let scale : Int := d.exponent.getD 0 + skipped.length
    - (d.fraction.length - skippedFraction.length : Nat)
  m ≠ 0 ∧ 0 ≤ scale ∧
    (308 < scale ∨ beyondDouble ≤ round53 m * round53 (Nat.pow 10 scale.toNat))

/-- The value of a number without point and exponent, if it has one of 64 bits. -/
def integer? (d : Decimal) : Option Number :=
  if d.fraction.isEmpty && d.exponent.isNone && d.whole.length ≤ 20 then
    let n := Nat.ofDigitChars 10 d.whole 0
    if d.negative then
      if 0 < n ∧ 2 * n ≤ UInt64.size then some (.negative n) else none
    else if n < UInt64.size then some (.natural n) else none
  else none

end Decimal

/-- What the characters of a number stand for. -/
inductive Number.Reading
  | malformed
  | outOfRange
  | number (n : Number)
  deriving DecidableEq, Repr

def Number.read (cs : List Char) : Number.Reading :=
  match Decimal.ofChars? cs with
  | none => .malformed
  | some d =>
    match d.integer? with
    | some n => .number n
    | none => if d.overflows then .outOfRange else .number (.real cs)

def Number.chars : Number → List Char
  | .natural n => Nat.toDigits 10 n
  | .negative n => '-' :: Nat.toDigits 10 n
  | .real lexeme => lexeme

end Progression.Json

import Progression.Toml.Item
import Progression.Text.Hex

/-!
Numbers in TOML. Digits may have marks between them, which are underscores. Where the marks
stand is checked at once, but whether the characters are digits only where a value is asked
for, so there are whole numbers without a value.
-/

namespace Progression.Toml

/-- Digits without the marks between them; none if a mark does not stand between two
digits. -/
def digits? (isDigit : Char → Bool) (cs : List Char) : Option (List Char) :=
  if (cs.splitOn '_').all fun part => !part.isEmpty && part.all isDigit then
    some (cs.filter (· != '_'))
  else none

/-- All numbers from here on are alike. -/
def integerBound : Nat := UInt64.size

def valueOf (base : Nat) (digits : List Char) : Nat :=
  digits.foldl (fun n d => min (n * base + (Text.hexDigit? d).getD 0) integerBound) 0

def dropSign : List Char → List Char
  | '+' :: cs | '-' :: cs => cs
  | cs => cs

/-- The parts behind the marks of a number that starts with decimal digits; none if it does
not. A zero in front stands alone. -/
def laterParts? (cs : List Char) : Option (List (List Char)) :=
  match cs.splitOn '_' with
  | [] => none
  | first :: later =>
    let digits := dropSign first
    if digits.isEmpty || !digits.all Char.isDigit then none
    else if digits.head? == some '0' && !(digits.length == 1 && later.isEmpty) then none
    else some later

/-! ### Whole numbers -/

/-- Digits behind the letter that names their base. There may be none, but then the number
has no value. -/
def basedInteger? (base : Nat) (cs : List Char) : Option Item :=
  if cs.isEmpty then some .plain
  else
    (digits? (fun c => (Text.hexDigit? c).any (· < base)) cs).map fun digits =>
      .integer (valueOf base digits)

def isHexDigit (c : Char) : Bool :=
  (Text.hexDigit? c).isSome

/-- The parts start with digits of some base, and all but the last end with one. -/
def areJoined (parts : List (List Char)) : Bool :=
  parts.all (·.head?.any isHexDigit) && parts.dropLast.all (·.getLast?.any isHexDigit)

def isExponentSign (c : Char) : Bool :=
  c == 'e' || c == 'E'

/-- The character makes a number one that is not whole. -/
def isFractionSign (c : Char) : Bool :=
  c == '.' || isExponentSign c

def decimalInteger? (cs : List Char) : Option Item :=
  if !cs.contains ' ' && !cs.any isFractionSign && (laterParts? cs).any areJoined then
    let digits := (dropSign cs).filter (· != '_')
    if !digits.all Char.isDigit then some .plain
    else if cs.head? == some '-' then some (.integer (-valueOf 10 digits))
    else some (.integer (valueOf 10 digits))
  else none

def integer? : List Char → Option Item
  | '0' :: 'x' :: cs => basedInteger? 16 cs
  | '0' :: 'o' :: cs => basedInteger? 8 cs
  | '0' :: 'b' :: cs => basedInteger? 2 cs
  | cs => decimalInteger? cs

/-! ### Fractions -/

/-- What stands behind the letter of an exponent, if there is one. -/
def isExponent : List Char → Bool
  | [] => true
  | _ :: cs => (digits? Char.isDigit (dropSign cs)).isSome

/-- A whole number with a fraction, an exponent or both. -/
def isFraction (cs : List Char) : Bool :=
  let isPart (part : List Char) := !part.isEmpty && part.all Char.isDigit
  (laterParts? (cs.takeWhile (!isFractionSign ·))).any (·.all isPart) &&
    match cs.dropWhile (!isFractionSign ·) with
    | [] => false
    | '.' :: rest =>
      (digits? Char.isDigit (rest.takeWhile (!isExponentSign ·))).isSome
        && isExponent (rest.dropWhile (!isExponentSign ·))
    | rest => isExponent rest

end Progression.Toml

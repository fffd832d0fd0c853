/-!
Hexadecimal digits.
-/

namespace Progression.Text

/-- The value of a digit in either case. -/
def hexDigit? (c : Char) : Option Nat :=
  if c.isDigit then some (c.toNat - '0'.toNat)
  else if 'a' ≤ c ∧ c ≤ 'f' then some (c.toNat - 'a'.toNat + 10)
  else if 'A' ≤ c ∧ c ≤ 'F' then some (c.toNat - 'A'.toNat + 10)
  else none

/-- The digit of a value below 16, in lower case. -/
def hexDigitChar (n : Nat) : Char :=
  if n < 10 then Char.ofNat ('0'.toNat + n) else Char.ofNat ('a'.toNat + (n - 10))

theorem hexDigit?_hexDigitChar {n : Nat} (h : n < 16) : hexDigit? (hexDigitChar n) = some n := by
  have : ∀ n : Fin 16, hexDigit? (hexDigitChar n) = some n.val := by decide
  exact this ⟨n, h⟩

end Progression.Text

import Progression.Text.Visible

/-!
Escapes for text that people read: what cannot be seen alone is written as its number.
-/

namespace Progression.Text

/-- The number of a character in hexadecimal, between braces. -/
def numberEscape (c : Char) : List Char :=
  '\\' :: 'u' :: '{' :: (Nat.toDigits 16 c.toNat ++ ['}'])

def escape (c : Char) : List Char :=
  match c with
  | '\x00' => ['\\', '0']
  | '\t' => ['\\', 't']
  | '\r' => ['\\', 'r']
  | '\n' => ['\\', 'n']
  | '\'' => ['\\', '\'']
  | '"' => ['\\', '"']
  | '\\' => ['\\', '\\']
  | c => if isExtender c || !isVisible c then numberEscape c else [c]

end Progression.Text

import Progression.Text.Escape

/-!
RON, a notation with named variants and bare field names. Only writing is needed: every
element stands on a line of its own, indented by four blanks and followed by a comma.
-/

namespace Progression

inductive Ron
  | nat (n : Nat)
  | string (s : String)
  | unit (name : String)
  | variant (name : String) (fields : List (String × Ron))
  | struct (fields : List (String × Ron))
  | list (items : List Ron)
  | map (entries : List (Ron × Ron))
  deriving Repr, Inhabited

namespace Ron

def quote (s : String) : List Char :=
  '"' :: (s.toList.flatMap Text.escape ++ ['"'])

/-- A line end and four blanks for every open bracket. -/
def newline (level : Nat) : List Char :=
  '\n' :: List.replicate (4 * level) ' '

mutual

def chars (level : Nat) : Ron → List Char
  | .nat n => Nat.toDigits 10 n
  | .string s => quote s
  | .unit name => name.toList
  | .variant name fields =>
    name.toList ++ '(' :: (fieldChars (level + 1) fields ++ closing level fields.isEmpty ')')
  | .struct fields => '(' :: (fieldChars (level + 1) fields ++ closing level fields.isEmpty ')')
  | .list items => '[' :: (itemChars (level + 1) items ++ closing level items.isEmpty ']')
  | .map entries =>
    '\x7b' :: (entryChars (level + 1) entries ++ closing level entries.isEmpty '\x7d')

def fieldChars (level : Nat) : List (String × Ron) → List Char
  | [] => []
  | (name, r) :: rs =>
    newline level ++ name.toList ++ ':' :: ' ' :: (chars level r ++ ',' :: fieldChars level rs)

def itemChars (level : Nat) : List Ron → List Char
  | [] => []
  | r :: rs => newline level ++ chars level r ++ ',' :: itemChars level rs

def entryChars (level : Nat) : List (Ron × Ron) → List Char
  | [] => []
  | (k, r) :: rs =>
    newline level ++ chars level k ++ ':' :: ' ' :: (chars level r ++ ',' :: entryChars level rs)

/-- The closing bracket; on the line of the opening one if nothing stands between. -/
def closing (level : Nat) (isEmpty : Bool) (bracket : Char) : List Char :=
  if isEmpty then [bracket] else newline level ++ [bracket]

end

def pretty (r : Ron) : String :=
  String.ofList (chars 0 r)

end Ron

end Progression

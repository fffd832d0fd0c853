import Progression.Json.Basic
import Progression.Text.Hex

/-!
Writing JSON, in one line or with one item a line. Quotes, backslashes and control
characters are escaped and everything else stands for itself.
-/

namespace Progression.Json

def escape (c : Char) : List Char :=
  match c with
  | '"' => ['\\', '"']
  | '\\' => ['\\', '\\']
  | '\x08' => ['\\', 'b']
  | '\x0c' => ['\\', 'f']
  | '\n' => ['\\', 'n']
  | '\r' => ['\\', 'r']
  | '\t' => ['\\', 't']
  | c =>
    if c < ' ' then
      ['\\', 'u', '0', '0', Text.hexDigitChar (c.toNat / 16),
        Text.hexDigitChar (c.toNat % 16)]
    else [c]

def quote (s : String) : List Char :=
  '"' :: (s.toList.flatMap escape ++ ['"'])

def scalarChars : Json → List Char
  | .bool true => "true".toList
  | .bool false => "false".toList
  | .number n => n.chars
  | .string s => quote s
  | _ => "null".toList

mutual

def compactChars : Json → List Char
  | .array items => '[' :: (compactItems items ++ [']'])
  | .object members => '{' :: (compactMembers members ++ ['}'])
  | value => scalarChars value

def compactItems : List Json → List Char
  | [] => []
  | [j] => compactChars j
  | j :: js => compactChars j ++ ',' :: compactItems js

def compactMembers : List (String × Json) → List Char
  | [] => []
  | [(key, j)] => quote key ++ ':' :: compactChars j
  | (key, j) :: ms => quote key ++ ':' :: (compactChars j ++ ',' :: compactMembers ms)

end

/-- A line end and two blanks for every open container. -/
def newline (level : Nat) : List Char :=
  '\n' :: List.replicate (2 * level) ' '

mutual

def prettyChars (level : Nat) : Json → List Char
  | .array [] => ['[', ']']
  | .array items => '[' :: (prettyItems (level + 1) items ++ newline level ++ [']'])
  | .object [] => ['{', '}']
  | .object members => '{' :: (prettyMembers (level + 1) members ++ newline level ++ ['}'])
  | value => scalarChars value

def prettyItems (level : Nat) : List Json → List Char
  | [] => []
  | [j] => newline level ++ prettyChars level j
  | j :: js => newline level ++ prettyChars level j ++ ',' :: prettyItems level js

def prettyMembers (level : Nat) : List (String × Json) → List Char
  | [] => []
  | [(key, j)] => newline level ++ quote key ++ ':' :: ' ' :: prettyChars level j
  | (key, j) :: ms =>
    newline level ++ quote key ++ ':' :: ' ' ::
      (prettyChars level j ++ ',' :: prettyMembers level ms)

end

def compact (j : Json) : String :=
  String.ofList (compactChars j)

def pretty (j : Json) : String :=
  String.ofList (prettyChars 0 j)

end Progression.Json

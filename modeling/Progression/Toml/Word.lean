import Progression.Toml.Date

/-!
The words of a TOML document: blanks, comments and line ends, quoted text, keys and plain
values.
-/

namespace Progression.Toml

/-! ### Between words -/

def isBlank (c : Char) : Bool :=
  c == ' ' || c == '\t'

def dropBlanks (cs : List Char) : List Char :=
  cs.dropWhile isBlank

/-- Text may hold every character but controls; tabs are no controls here. -/
def isText (c : Char) : Bool :=
  c == '\t' || (' ' ≤ c && c != '\x7f')

/-- Drops a comment, if there is one, up to the end of its line. -/
def dropComment (cs : List Char) : List Char :=
  match cs with
  | '#' :: cs => cs.dropWhile isText
  | cs => cs

/-- Drops a line end. -/
def lineEnd? : List Char → Option (List Char)
  | '\n' :: cs => some cs
  | '\r' :: '\n' :: cs => some cs
  | _ => none

mutual

/-- Drops blanks, comments and line ends. -/
def dropSpace : List Char → List Char
  | '\r' :: '\n' :: cs => dropSpace cs
  | c :: cs =>
    if isBlank c || c == '\n' then dropSpace cs
    else if c = '#' then dropLine cs
    else c :: cs
  | [] => []

/-- Drops the rest of a comment and what `dropSpace` drops after it. -/
def dropLine : List Char → List Char
  | '\r' :: '\n' :: cs => dropSpace cs
  | c :: cs => if c = '\n' then dropSpace cs else if isText c then dropLine cs else c :: cs
  | [] => []

end

/-! ### Quoted text -/

/-- A character by its number in so many hexadecimal digits. -/
def code? (code : Nat) : Nat → List Char → Option (Char × List Char)
  | 0, cs => if h : code.isValidChar then some (Char.ofNatAux code h, cs) else none
  | n + 1, c :: cs =>
    match Text.hexDigit? c with
    | some d => code? (code * 16 + d) n cs
    | none => none
  | _ + 1, [] => none

/-- What stands behind a backslash. -/
def escape? : List Char → Option (Char × List Char)
  | 'b' :: cs => some ('\x08', cs)
  | 't' :: cs => some ('\t', cs)
  | 'n' :: cs => some ('\n', cs)
  | 'f' :: cs => some ('\x0c', cs)
  | 'r' :: cs => some ('\r', cs)
  | 'e' :: cs => some ('\x1b', cs)
  | '"' :: cs => some ('"', cs)
  | '\\' :: cs => some ('\\', cs)
  | 'x' :: cs => code? 0 2 cs
  | 'u' :: cs => code? 0 4 cs
  | 'U' :: cs => code? 0 8 cs
  | _ => none

/-- How a text is quoted. -/
structure Quoting where
  quote : Char
  escapes : Bool
  /-- The text may run over several lines and ends with three quotes. -/
  long : Bool

/-- Drops blanks and line ends. -/
def dropLines : List Char → List Char
  | '\r' :: '\n' :: cs => dropLines cs
  | c :: cs => if isBlank c || c == '\n' then dropLines cs else c :: cs
  | [] => []

/-- Drops a line end behind a backslash, and all blanks and line ends after it. -/
def joinLines? (cs : List Char) : Option (List Char) :=
  (lineEnd? (dropBlanks cs)).map dropLines

/-- Three quotes that end a long text. Up to two more belong to the text. -/
def longEnd? (quote : Char) (cs : List Char) : Option (List Char × List Char) :=
  let count := min 5 (cs.takeWhile (· == quote)).length
  if count < 3 then none else some (List.replicate (count - 3) quote, cs.drop count)

/-- Quoted text up to its end, `fuel` being more than its length; `chars` are the characters so
far, newest first. -/
def quoted? (q : Quoting) (chars : List Char) : Nat → List Char → Option (String × List Char)
  | 0, _ | _, [] => none
  | fuel + 1, c :: cs =>
    if c = q.quote then
      if q.long then
        match longEnd? q.quote (c :: cs) with
        | some (more, rest) => some (String.ofList (more ++ chars).reverse, rest)
        | none => quoted? q (c :: chars) fuel cs
      else some (String.ofList chars.reverse, cs)
    else if c = '\\' ∧ q.escapes then
      match if q.long then joinLines? cs else none with
      | some rest => quoted? q chars fuel rest
      | none =>
        match escape? cs with
        | some (c, rest) => quoted? q (c :: chars) fuel rest
        | none => none
    else if isText c then quoted? q (c :: chars) fuel cs
    else if q.long then
      match lineEnd? (c :: cs) with
      | some rest => quoted? q (if c = '\n' then '\n' :: chars else '\n' :: '\r' :: chars) fuel rest
      | none => none
    else none

/-- Text in single quotes or double quotes, once or three times. A line end right behind
three quotes does not count. -/
def string? (fuel : Nat) : List Char → Option (String × List Char)
  | '"' :: '"' :: '"' :: cs => quoted? ⟨'"', true, true⟩ [] fuel ((lineEnd? cs).getD cs)
  | '"' :: cs => quoted? ⟨'"', true, false⟩ [] fuel cs
  | '\'' :: '\'' :: '\'' :: cs => quoted? ⟨'\'', false, true⟩ [] fuel ((lineEnd? cs).getD cs)
  | '\'' :: cs => quoted? ⟨'\'', false, false⟩ [] fuel cs
  | _ => none

/-! ### Keys -/

def isKeyChar (c : Char) : Bool :=
  c.isAlphanum || c == '_' || c == '-'

/-- One part of a key. Three quotes do not start a key. -/
def keyPart? (fuel : Nat) (cs : List Char) : Option (String × List Char) :=
  match cs with
  | '"' :: '"' :: '"' :: _ | '\'' :: '\'' :: '\'' :: _ => none
  | '"' :: _ | '\'' :: _ => string? fuel cs
  | _ =>
    let key := cs.takeWhile isKeyChar
    if key.isEmpty then none else some (String.ofList key, cs.dropWhile isKeyChar)

/-- The most parts that a key may have. -/
def maxParts : Nat := 80

/-- A key of parts with points between them; `parts` are those so far, newest first. -/
def key? (parts : List String) : Nat → List Char → Option (List String × List Char)
  | 0, _ => none
  | fuel + 1, cs =>
    match if parts.length < maxParts then keyPart? (fuel + 1) cs else none with
    | none => none
    | some (part, rest) =>
      match dropBlanks rest with
      | '.' :: rest => key? (part :: parts) fuel (dropBlanks rest)
      | rest => some ((part :: parts).reverse, rest)

/-! ### Plain values -/

def isWordChar (c : Char) : Bool :=
  !(isBlank c || ['=', ',', '[', ']', '{', '}', '#', '\r', '\n'].contains c)

/-- A word starts here; a quote starts a text of its own. -/
def startsWord (cs : List Char) : Bool :=
  cs.head?.any fun c => isWordChar c && c != '"' && c != '\''

/-- What a text starts with up to a sign or a line end, and what follows. Blanks between words
belong to it. The characters so far come newest first; as much fuel as there are characters is
enough. -/
def splitWords (chars : List Char) : Nat → List Char → List Char × List Char
  | 0, cs => (chars.reverse, cs)
  | fuel + 1, cs =>
    let chars := (cs.takeWhile isWordChar).reverse ++ chars
    let rest := cs.dropWhile isWordChar
    let next := dropBlanks rest
    if startsWord next then splitWords ((rest.takeWhile isBlank).reverse ++ chars) fuel next
    else (chars.reverse, rest)

def isPlain (cs : List Char) : Bool :=
  cs == "true".toList || cs == "false".toList || dropSign cs == "inf".toList
    || dropSign cs == "nan".toList || isFraction cs || isDate cs

/-- A value without quotes and brackets. -/
def scalar? (fuel : Nat) (cs : List Char) : Option (Item × List Char) :=
  let (word, rest) := splitWords [] fuel cs
  match integer? word with
  | some item => some (item, rest)
  | none => if isPlain word then some (.plain, rest) else none

end Progression.Toml

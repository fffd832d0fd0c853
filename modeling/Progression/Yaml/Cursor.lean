/-!
A place in a YAML text, and the classes of characters by which the text is divided.
-/

namespace Progression.Yaml

def isLineBreak (c : Char) : Bool :=
  c == '\n' || c == '\r' || c == '\x85' || c == '\u2028' || c == '\u2029'

def isBlank (c : Char) : Bool :=
  c == ' ' || c == '\t'

def isSpace (c : Char) : Bool :=
  isBlank c || isLineBreak c

/-- The characters of names. -/
def isNameChar (c : Char) : Bool :=
  c.isAlphanum || c == '_' || c == '-'

/-- The characters that a text may hold. -/
def isAllowed (c : Char) : Bool :=
  c == '\t' || c == '\n' || c == '\r' || (' ' ≤ c && c ≤ '~') || c == '\x85'
    || ('\xa0' ≤ c && c != '\uFFFE' && c != '\uFFFF')

/-- Nothing follows, or something that stands between words. -/
def endsWord : List Char → Bool
  | [] => true
  | c :: _ => isSpace c

/-- Three hyphens or three points as a word of their own. -/
def isDocumentMark : List Char → Bool
  | '-' :: '-' :: '-' :: cs => endsWord cs
  | '.' :: '.' :: '.' :: cs => endsWord cs
  | _ => false

structure Cursor where
  rest : List Char
  /-- Bytes before the place. -/
  index : Nat := 0
  /-- Lines before the place. -/
  line : Nat := 0
  /-- Characters between the start of the line and the place. -/
  column : Nat := 0
  deriving Repr

namespace Cursor

/-- Steps over a character. -/
def next (cur : Cursor) : Cursor :=
  match cur.rest with
  | [] => cur
  | c :: cs => { cur with rest := cs, index := cur.index + c.utf8Size, column := cur.column + 1 }

/-- Steps over a line break. -/
def nextLine (cur : Cursor) : Cursor :=
  match cur.rest with
  | '\r' :: '\n' :: cs => ⟨cs, cur.index + 2, cur.line + 1, 0⟩
  | c :: cs => ⟨cs, cur.index + c.utf8Size, cur.line + 1, 0⟩
  | [] => cur

/-- What a line break counts for in a text: a line feed, but for two breaks of their own. -/
def breakChar (cur : Cursor) : Char :=
  match cur.rest with
  | '\u2028' :: _ => '\u2028'
  | '\u2029' :: _ => '\u2029'
  | _ => '\n'

def skip (cur : Cursor) : Nat → Cursor
  | 0 => cur
  | n + 1 => cur.next.skip n

/-- Steps over the characters of a class; `fuel` bounds their number. -/
def skipWhile (p : Char → Bool) : Nat → Cursor → Cursor
  | 0, cur => cur
  | fuel + 1, cur =>
    match cur.rest with
    | c :: _ => if p c then skipWhile p fuel cur.next else cur
    | [] => cur

def head? (cur : Cursor) : Option Char :=
  cur.rest.head?

def atSpace (cur : Cursor) : Bool :=
  cur.head?.any isSpace

def atBlank (cur : Cursor) : Bool :=
  cur.head?.any isBlank

def atBreak (cur : Cursor) : Bool :=
  cur.head?.any isLineBreak

/-- A document may end here. -/
def atDocumentMark (cur : Cursor) : Bool :=
  cur.column == 0 && isDocumentMark cur.rest

/-- Steps over the rest of a line that may hold blanks and a comment. -/
def endLine? (fuel : Nat) (cur : Cursor) : Option Cursor :=
  let cur := skipWhile isBlank fuel cur
  let cur := if cur.head? == some '#' then skipWhile (!isLineBreak ·) fuel cur else cur
  if cur.rest.isEmpty then some cur else if cur.atBreak then some cur.nextLine else none

end Cursor

end Progression.Yaml

import Progression.Yaml.Scalar

/-!
The words of a YAML text. Indentation is made explicit by tokens that open and close block
collections. Whether a word is a key is known only at the colon behind it, so every place
where a key may have started is remembered until then.
-/

namespace Progression.Yaml

inductive Token
  | version (major minor : Nat)
  | tagHandle (handle start : String)
  | documentStart | documentEnd
  | blockSequence | blockMapping | blockEnd
  | openBracket | closeBracket | openBrace | closeBrace
  | hyphen | comma | key | value
  | alias (name : String)
  | anchor (name : String)
  | tag (handle suffix : String)
  | scalar (text : String) (plain : Bool)
  deriving Repr, Inhabited

/-! ### Directives, anchors and tags -/

/-- The characters of a class, and what follows them. -/
def span (p : Char → Bool) (chars : List Char) : Nat → Cursor → List Char × Cursor
  | 0, cur => (chars.reverse, cur)
  | fuel + 1, cur =>
    match cur.rest with
    | c :: _ => if p c then span p (c :: chars) fuel cur.next else (chars.reverse, cur)
    | [] => (chars.reverse, cur)

/-- A name behind an asterisk or an ampersand. -/
def name? (fuel : Nat) (cur : Cursor) : Option (String × Cursor) :=
  let (name, cur) := span isNameChar [] fuel cur
  let ends := endsWord cur.rest
    || cur.head?.any (['?', ':', ',', ']', '}', '%', '@', '\x60'].contains ·)
  if name.isEmpty || !ends then none else some (String.ofList name, cur)

def isUriChar (verbatim : Bool) (c : Char) : Bool :=
  isNameChar c
    || [';', '/', '?', ':', '@', '&', '=', '+', '$', '.', '!', '~', '*', '\'', '(', ')'].contains c
    || (verbatim && [',', '[', ']'].contains c)

/-- A byte in two hexadecimal digits behind a percent sign. -/
def escapedByte? (cur : Cursor) : Option (UInt8 × Cursor) := do
  if cur.head? != some '%' then none
  let high ← cur.next.head?.bind Text.hexDigit?
  let low ← cur.next.next.head?.bind Text.hexDigit?
  return (UInt8.ofNat (high * 16 + low), cur.next.next.next)

/-- How many bytes a character has, by the first of them. -/
def byteCount (first : UInt8) : Nat :=
  if first < 0x80 then 1
  else if first &&& 0xE0 == 0xC0 then 2
  else if first &&& 0xF0 == 0xE0 then 3
  else if first &&& 0xF8 == 0xF0 then 4
  else 0

/-- So many bytes that go on with a character; the bytes of a tag come newest first. -/
def escapedBytes? (bytes : List Char) (cur : Cursor) : Nat → Option (List Char × Cursor)
  | 0 => some (bytes, cur)
  | n + 1 =>
    match escapedByte? cur with
    | some (b, cur) =>
      if b &&& 0xC0 == 0x80 then escapedBytes? (.ofNat b.toNat :: bytes) cur n else none
    | none => none

/-- A character that is written byte by byte. -/
def escapedChar? (bytes : List Char) (cur : Cursor) : Option (List Char × Cursor) := do
  let (first, cur) ← escapedByte? cur
  let count := byteCount first
  if count = 0 then none else escapedBytes? (.ofNat first.toNat :: bytes) cur (count - 1)

/-- The bytes of a tag, newest first, in front of `bytes`. Nobody checks that they are text, so
each is kept as a character of its own. -/
def uri? (verbatim : Bool) (bytes : List Char) : Nat → Cursor → Option (List Char × Cursor)
  | 0, _ => none
  | fuel + 1, cur =>
    match cur.head? with
    | some '%' =>
      match escapedChar? bytes cur with
      | some (bytes, cur) => uri? verbatim bytes fuel cur
      | none => none
    | some c =>
      if isUriChar verbatim c then uri? verbatim (c :: bytes) fuel cur.next else some (bytes, cur)
    | none => some (bytes, cur)

/-- What is kept of the bytes of a tag: a zero ends it. -/
def tagText (bytes : List Char) : String :=
  String.ofList (bytes.reverse.takeWhile (· != '\x00'))

/-- An exclamation mark, a name and perhaps another exclamation mark. -/
def handle (fuel : Nat) (cur : Cursor) : List Char × Cursor :=
  let (name, cur) := span isNameChar [] fuel cur.next
  if cur.head? == some '!' then ('!' :: (name ++ ['!']), cur.next) else ('!' :: name, cur)

/-- A tag is followed by a blank, in a flow collection also by a comma. -/
def endsTag (flow : Bool) (cur : Cursor) : Bool :=
  (flow && cur.head? == some ',') || endsWord cur.rest

/-- A tag from its exclamation mark on. -/
def tag? (flow : Bool) (fuel : Nat) (cur : Cursor) : Option (Token × Cursor) := do
  let (token, cur) ←
    if cur.next.head? == some '<' then do
      let (bytes, cur) ← uri? true [] fuel cur.next.next
      if bytes.isEmpty || cur.head? != some '>' then none
      some (Token.tag "" (tagText bytes), cur.next)
    else do
      let (h, cur) := handle fuel cur
      if 1 < h.length && h.getLast? == some '!' then
        let (bytes, cur) ← uri? false [] fuel cur
        if bytes.isEmpty then none
        some (.tag (String.ofList h) (tagText bytes), cur)
      else
        let (bytes, cur) ← uri? false h.tail.reverse fuel cur
        let suffix := tagText bytes
        some (if suffix.isEmpty then .tag "" "!" else .tag "!" suffix, cur)
  if endsTag flow cur then some (token, cur) else none

/-- A number of at most nine digits. -/
def versionPart? (fuel : Nat) (cur : Cursor) : Option (Nat × Cursor) :=
  let (digits, cur) := span Char.isDigit [] fuel cur
  if digits.isEmpty || 9 < digits.length then none else some (Nat.ofDigitChars 10 digits 0, cur)

/-- A directive behind its percent sign. -/
def directive? (fuel : Nat) (cur : Cursor) : Option (Token × Cursor) := do
  let (name, cur) := span isNameChar [] fuel cur
  if !endsWord cur.rest then none
  let cur := Cursor.skipWhile isBlank fuel cur
  let (token, cur) ←
    if name = "YAML".toList then do
      let (major, cur) ← versionPart? fuel cur
      if cur.head? != some '.' then none
      let (minor, cur) ← versionPart? fuel cur.next
      some (Token.version major minor, cur)
    else if name = "TAG".toList then do
      if cur.head? != some '!' then none
      let (h, cur) := handle fuel cur
      if h.length != 1 && h.getLast? != some '!' then none
      if !cur.atBlank then none
      let (bytes, cur) ← uri? true [] fuel (Cursor.skipWhile isBlank fuel cur)
      if bytes.isEmpty || !endsWord cur.rest then none
      some (.tagHandle (String.ofList h) (tagText bytes), cur)
    else none
  return (token, ← cur.endLine? fuel)

/-! ### Keys and indentation -/

/-- A place where a key may have started. -/
structure KeyStart where
  /-- The number of tokens before it. -/
  count : Nat
  index : Nat
  line : Nat
  column : Nat
  /-- Nothing else may start there. -/
  required : Bool
  deriving Repr

namespace KeyStart

/-- The most bytes between the start of a key and the colon behind it. -/
def maxSize : Nat := 1024

/-- A key ends in the line in which it starts, and soon. -/
def isStale (k : KeyStart) (cur : Cursor) : Bool :=
  k.line < cur.line || k.index + maxSize < cur.index

end KeyStart

/-- A text that has been divided up to some place. -/
structure Scan where
  cur : Cursor
  /-- Newest first. -/
  tokens : List Token := []
  count : Nat := 0
  /-- The column of the innermost block collection; -1 outside of all. -/
  indent : Int := -1
  /-- The columns around it. -/
  indents : List Int := []
  /-- Where a key may have started, outside of all flow collections. -/
  keyStart : Option KeyStart := none
  /-- The same for every open flow collection, innermost first. -/
  flowKeyStarts : List (Option KeyStart) := []
  /-- A key may start here. -/
  keyAllowed : Bool := true

namespace Scan

/-- Flow collections that may be open at once. More could not be read anyway. -/
def maxFlow : Nat := 128

def isFlow (s : Scan) : Bool :=
  !s.flowKeyStarts.isEmpty

def add (s : Scan) (t : Token) : Scan :=
  { s with tokens := t :: s.tokens, count := s.count + 1 }

/-- Adds a token that `count` tokens come before. -/
def insert (s : Scan) (count : Nat) (t : Token) : Scan :=
  let later := s.tokens.take (s.count - count)
  { s with tokens := later ++ t :: s.tokens.drop (s.count - count), count := s.count + 1 }

def here (s : Scan) : Option KeyStart :=
  match s.flowKeyStarts with
  | k :: _ => k
  | [] => s.keyStart

def setHere (s : Scan) (k : Option KeyStart) : Scan :=
  match s.flowKeyStarts with
  | _ :: ks => { s with flowKeyStarts := k :: ks }
  | [] => { s with keyStart := k }

/-- Gives up the key that may have started; none if it had to be one. -/
def dropKey? (s : Scan) : Option Scan :=
  match s.here with
  | some k => if k.required then none else some (s.setHere none)
  | none => some s

/-- Remembers that a key may start here. -/
def saveKey? (s : Scan) : Option Scan :=
  if s.keyAllowed then
    let required := !s.isFlow && s.indent == s.cur.column
    let k : KeyStart := ⟨s.count, s.cur.index, s.cur.line, s.cur.column, required⟩
    s.dropKey?.map fun s => s.setHere (some k)
  else some s

def freshen? (cur : Cursor) (k : Option KeyStart) : Option (Option KeyStart) :=
  match k with
  | some k => if k.isStale cur then if k.required then none else some none else some (some k)
  | none => some none

/-- Gives up the keys that can end no more. -/
def dropStale? (s : Scan) : Option Scan := do
  let keyStart ← freshen? s.cur s.keyStart
  let flowKeyStarts ← s.flowKeyStarts.mapM (freshen? s.cur)
  return { s with keyStart, flowKeyStarts }

/-- Opens a block collection at a column, unless one is open there. -/
def roll (s : Scan) (column : Nat) (count : Nat) (t : Token) : Scan :=
  if !s.isFlow && s.indent < column then
    { s.insert count t with indent := column, indents := s.indent :: s.indents }
  else s

/-- Closes the block collections that are indented further than a column. -/
def unroll (s : Scan) (column : Int) : List Int → Scan
  | [] => s
  | outer :: indents =>
    if column < s.indent then
      unroll { s.add .blockEnd with indent := outer, indents } column indents
    else s

def unrollTo (s : Scan) (column : Int) : Scan :=
  if s.isFlow then s else s.unroll column s.indents

/-- Steps over blanks, comments and line breaks. Tabs do not count as blanks where a key may
start in a block. A byte order mark may start a line, and takes a column there. -/
def skipSpace (s : Scan) : Nat → Scan
  | 0 => s
  | fuel + 1 =>
    match s.cur.head? with
    | none => s
    | some c =>
      if c = ' ' ∨ (c = '\t' ∧ (s.isFlow || !s.keyAllowed)) ∨ (c = '\uFEFF' ∧ s.cur.column = 0) then
        skipSpace { s with cur := s.cur.next } fuel
      else if c = '#' then
        skipSpace { s with cur := Cursor.skipWhile (!isLineBreak ·) (fuel + 1) s.cur } fuel
      else if isLineBreak c then
        skipSpace { s with cur := s.cur.nextLine, keyAllowed := s.keyAllowed || !s.isFlow } fuel
      else s

/-! ### One token -/

/-- Adds a token and steps over its characters. -/
def take (s : Scan) (t : Token) (size : Nat) : Scan :=
  { s.add t with cur := s.cur.skip size }

/-- Adds a token that has been read. -/
def read (s : Scan) (found : Token × Cursor) : Scan :=
  { s.add found.1 with cur := found.2 }

def mark? (s : Scan) (t : Token) : Option Scan := do
  let s ← (s.unrollTo (-1)).dropKey?
  return { s.take t 3 with keyAllowed := false }

def openFlow? (s : Scan) (t : Token) : Option Scan := do
  let s ← s.saveKey?
  if s.flowKeyStarts.length < maxFlow then
    some { s.take t 1 with flowKeyStarts := none :: s.flowKeyStarts, keyAllowed := true }
  else none

def closeFlow? (s : Scan) (t : Token) : Option Scan := do
  let s ← s.dropKey?
  return { s.take t 1 with flowKeyStarts := s.flowKeyStarts.tail, keyAllowed := false }

def hyphen? (s : Scan) : Option Scan := do
  if !s.isFlow && !s.keyAllowed then none
  let s ← (s.roll s.cur.column s.count .blockSequence).dropKey?
  return { s.take .hyphen 1 with keyAllowed := true }

def key? (s : Scan) : Option Scan := do
  if !s.isFlow && !s.keyAllowed then none
  let s ← (s.roll s.cur.column s.count .blockMapping).dropKey?
  return { s.take .key 1 with keyAllowed := !s.isFlow }

/-- A colon makes a key of what may have been one. -/
def value? (s : Scan) : Option Scan :=
  match s.here with
  | some k =>
    let s := (s.insert k.count .key).roll k.column k.count .blockMapping
    some { (s.setHere none).take .value 1 with keyAllowed := false }
  | none =>
    if !s.isFlow && !s.keyAllowed then none
    else
      let s := s.roll s.cur.column s.count .blockMapping
      some { s.take .value 1 with keyAllowed := !s.isFlow }

/-- A word that may be a key, or belong to one. -/
def word? (s : Scan) (read : Cursor → Option (Token × Cursor)) : Option Scan := do
  let s ← s.saveKey?
  let found ← read s.cur
  return { s.read found with keyAllowed := false }

def quoted? (s : Scan) (single : Bool) (fuel : Nat) : Option Scan :=
  s.word? fun cur =>
    (Yaml.quoted? single [] fuel cur.next).map fun (text, cur) => (.scalar text false, cur)

def block? (s : Scan) (literal : Bool) (fuel : Nat) : Option Scan := do
  let s ← s.dropKey?
  let (text, cur) ← Yaml.block? literal s.indent fuel s.cur.next
  return { s.read (.scalar text false, cur) with keyAllowed := true }

def plain? (s : Scan) (fuel : Nat) : Option Scan := do
  let s ← s.saveKey?
  let (text, broken, cur) ← Yaml.plain? s.isFlow (s.indent + 1) [] {} fuel s.cur
  return { s.read (.scalar text true, cur) with keyAllowed := broken }

/-- The characters that have a meaning of their own at the start of a word. -/
def isIndicator (c : Char) : Bool :=
  isFlowMark c || ['#', '&', '*', '!', '|', '>', '\'', '"', '%', '@', '\x60'].contains c

/-- The character may start a plain scalar, given the characters after it. -/
def startsPlain (flow : Bool) (c : Char) (cs : List Char) : Bool :=
  if c = '-' then !cs.head?.any isBlank
  else if c = '?' ∨ c = ':' then !flow && !endsWord cs
  else !isSpace c && !isIndicator c

/-- Reads the token that starts with a character. -/
def token? (s : Scan) (fuel : Nat) (c : Char) (cs : List Char) : Option Scan :=
  if s.cur.column = 0 ∧ c = '%' then do
    let s ← (s.unrollTo (-1)).dropKey?
    let found ← directive? fuel s.cur.next
    return { s.read found with keyAllowed := false }
  else if s.cur.atDocumentMark then s.mark? (if c = '-' then .documentStart else .documentEnd)
  else
    match c with
    | '[' => s.openFlow? .openBracket
    | '{' => s.openFlow? .openBrace
    | ']' => s.closeFlow? .closeBracket
    | '}' => s.closeFlow? .closeBrace
    | ',' => do
      let s ← s.dropKey?
      return { s.take .comma 1 with keyAllowed := true }
    | '*' => s.word? fun cur => (name? fuel cur.next).map fun (n, cur) => (.alias n, cur)
    | '&' => s.word? fun cur => (name? fuel cur.next).map fun (n, cur) => (.anchor n, cur)
    | '!' => s.word? (tag? s.isFlow fuel)
    | '\'' => s.quoted? true fuel
    | '"' => s.quoted? false fuel
    | _ =>
      if c = '-' ∧ endsWord cs then s.hyphen?
      else if c = '?' ∧ (s.isFlow || endsWord cs) then s.key?
      else if c = ':' ∧ (s.isFlow || endsWord cs) then s.value?
      else if c = '|' ∧ !s.isFlow then s.block? true fuel
      else if c = '>' ∧ !s.isFlow then s.block? false fuel
      else if startsPlain s.isFlow c cs then s.plain? fuel
      else none

/-- Reads all tokens. -/
def run? (s : Scan) : Nat → Option (List Token)
  | 0 => none
  | fuel + 1 => do
    let s ← (s.skipSpace (fuel + 1)).dropStale?
    let s := s.unrollTo s.cur.column
    match s.cur.rest with
    | [] =>
      let s ← (s.unrollTo (-1)).dropKey?
      return s.tokens.reverse
    | c :: cs =>
      match s.token? (fuel + 1) c cs with
      | some s => run? s fuel
      | none => none

end Scan

/-- The tokens of a text; none if the text cannot be divided or holds a character that is
not allowed. -/
def Token.scan? (text : String) : Option (List Token) :=
  let cs := text.toList
  if cs.all isAllowed then Scan.run? { cur := ⟨cs, 0, 0, 0⟩ } (cs.length + 2) else none

end Progression.Yaml

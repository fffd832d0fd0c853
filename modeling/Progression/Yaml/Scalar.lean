import Progression.Yaml.Cursor
import Progression.Text.Hex

/-!
The texts of scalars: plain words, quoted text and blocks of lines. Lines are folded: a
single line break becomes a blank, and of several the first is dropped.
-/

namespace Progression.Yaml

/-- What stands between two words of a scalar. Lists come newest first. -/
structure Gap where
  blanks : List Char := []
  /-- There has been a line break. -/
  broken : Bool := false
  /-- The first line break; none if it was escaped. -/
  first : Option Char := none
  /-- The line breaks after it. -/
  more : List Char := []
  deriving Repr

namespace Gap

/-- Puts what a gap stands for in front of the characters that come after it; characters
come newest first. -/
def join (gap : Gap) (chars : List Char) : List Char :=
  if !gap.broken then gap.blanks ++ chars
  else if gap.first == some '\n' then
    if gap.more.isEmpty then ' ' :: chars else gap.more ++ chars
  else gap.more ++ gap.first.toList ++ chars

/-- Adds a line break. -/
def addBreak (gap : Gap) (c : Char) : Gap :=
  if gap.broken then { gap with more := c :: gap.more }
  else { blanks := [], broken := true, first := some c }

/-- Reads blanks and line breaks. After a line break, tabs before the column `indent` are
refused. -/
def read? (indent : Int) : Nat → Gap → Cursor → Option (Gap × Cursor)
  | 0, _, _ => none
  | fuel + 1, gap, cur =>
    match cur.rest with
    | [] => some (gap, cur)
    | c :: _ =>
      if isBlank c then
        if gap.broken then
          if c = '\t' ∧ cur.column < indent then none else read? indent fuel gap cur.next
        else read? indent fuel { gap with blanks := c :: gap.blanks } cur.next
      else if isLineBreak c then read? indent fuel (gap.addBreak cur.breakChar) cur.nextLine
      else some (gap, cur)

end Gap

/-! ### Plain scalars -/

/-- The marks of flow collections, which end a word there. -/
def isFlowMark (c : Char) : Bool :=
  c == ',' || c == '[' || c == ']' || c == '{' || c == '}'

/-- Reads one word of a plain scalar in front of `chars`. In a flow collection a colon must
not stand right before a mark or a question mark. -/
def plainWord? (flow : Bool) (chars : List Char) : Nat → Cursor → Option (List Char × Cursor)
  | 0, _ => none
  | fuel + 1, cur =>
    match cur.rest with
    | [] => some (chars, cur)
    | c :: cs =>
      if isSpace c then some (chars, cur)
      else if flow ∧ c = ':' ∧ cs.head?.any (fun d => isFlowMark d || d == '?') then none
      else if (c = ':' ∧ endsWord cs) ∨ (flow ∧ isFlowMark c) then some (chars, cur)
      else plainWord? flow (c :: chars) fuel cur.next

/-- A plain scalar, as far as it goes. Also returned is whether it ended behind a line
break. -/
def plain? (flow : Bool) (indent : Int) (chars : List Char) (gap : Gap) :
    Nat → Cursor → Option (String × Bool × Cursor)
  | 0, _ => none
  | fuel + 1, cur =>
    if cur.atDocumentMark || cur.head? == some '#' then
      some (String.ofList chars.reverse, gap.broken, cur)
    else
      match plainWord? flow [] (fuel + 1) cur with
      | none => none
      | some (word, cur) =>
        let (chars, gap) := if word.isEmpty then (chars, gap) else (word ++ gap.join chars, {})
        if cur.atSpace then
          match Gap.read? indent (fuel + 1) gap cur with
          | none => none
          | some (gap, cur) =>
            if !flow && cur.column < indent then
              some (String.ofList chars.reverse, gap.broken, cur)
            else plain? flow indent chars gap fuel cur
        else some (String.ofList chars.reverse, gap.broken, cur)

/-! ### Quoted scalars -/

/-- A character by its number in so many hexadecimal digits. -/
def code? (code : Nat) (cur : Cursor) : Nat → Option (Char × Cursor)
  | 0 => if h : code.isValidChar then some (Char.ofNatAux code h, cur) else none
  | n + 1 =>
    match cur.head?.bind Text.hexDigit? with
    | some d => code? (code * 16 + d) cur.next n
    | none => none

/-- What a letter behind a backslash stands for. -/
def unescape? : Char → Option Char
  | '0' => some '\x00'
  | 'a' => some '\x07'
  | 'b' => some '\x08'
  | 't' | '\t' => some '\t'
  | 'n' => some '\n'
  | 'v' => some '\x0b'
  | 'f' => some '\x0c'
  | 'r' => some '\r'
  | 'e' => some '\x1b'
  | ' ' => some ' '
  | '"' => some '"'
  | '/' => some '/'
  | '\\' => some '\\'
  | 'N' => some '\x85'
  | '_' => some '\xa0'
  | 'L' => some '\u2028'
  | 'P' => some '\u2029'
  | _ => none

/-- A character from the letter behind a backslash on. -/
def escape? (cur : Cursor) : Option (Char × Cursor) :=
  match cur.head? with
  | some 'x' => code? 0 cur.next 2
  | some 'u' => code? 0 cur.next 4
  | some 'U' => code? 0 cur.next 8
  | some c => (unescape? c).map (·, cur.next)
  | none => none

/-- How a word of quoted text ends. -/
inductive WordEnd
  | quote
  /-- A line break that does not count. -/
  | escapedBreak
  | space

/-- Reads one word of quoted text in front of `chars`. -/
def quotedWord? (single : Bool) (chars : List Char) :
    Nat → Cursor → Option (List Char × WordEnd × Cursor)
  | 0, _ => none
  | fuel + 1, cur =>
    match cur.rest with
    | [] => some (chars, .space, cur)
    | c :: cs =>
      if isSpace c then some (chars, .space, cur)
      else if single then
        if c = '\'' then
          if cs.head? = some '\'' then quotedWord? single ('\'' :: chars) fuel cur.next.next
          else some (chars, .quote, cur.next)
        else quotedWord? single (c :: chars) fuel cur.next
      else if c = '"' then some (chars, .quote, cur.next)
      else if c = '\\' then
        if cur.next.atBreak then some (chars, .escapedBreak, cur.next.nextLine)
        else
          match escape? cur.next with
          | some (c, cur) => quotedWord? single (c :: chars) fuel cur
          | none => none
      else quotedWord? single (c :: chars) fuel cur.next

/-- Quoted text behind its first quote. -/
def quoted? (single : Bool) (chars : List Char) : Nat → Cursor → Option (String × Cursor)
  | 0, _ => none
  | fuel + 1, cur =>
    if cur.atDocumentMark || cur.rest.isEmpty then none
    else
      match quotedWord? single chars (fuel + 1) cur with
      | none => none
      | some (chars, .quote, cur) => some (String.ofList chars.reverse, cur)
      | some (chars, wordEnd, cur) =>
        let gap : Gap := match wordEnd with
          | .escapedBreak => { broken := true }
          | _ => {}
        match Gap.read? 0 (fuel + 1) gap cur with
        | some (gap, cur) => quoted? single (gap.join chars) fuel cur
        | none => none

/-! ### Blocks of lines -/

/-- What happens to the line breaks at the end of a block. -/
inductive Chomping
  | strip | clip | keep
  deriving DecidableEq

/-- The marks behind the sign of a block: what happens at its end, and how far it is
indented, in either order. -/
def blockHeader? (cur : Cursor) : Option (Chomping × Option Nat × Cursor) :=
  let chomping (cur : Cursor) := match cur.head? with
    | some '+' => (Chomping.keep, cur.next)
    | some '-' => (Chomping.strip, cur.next)
    | _ => (Chomping.clip, cur)
  let increment? (cur : Cursor) : Option (Option Nat × Cursor) := match cur.head? with
    | some c =>
      if c = '0' then none
      else if c.isDigit then some (some (c.toNat - '0'.toNat), cur.next)
      else some (none, cur)
    | none => some (none, cur)
  if cur.head? == some '+' || cur.head? == some '-' then
    let (c, cur) := chomping cur
    (increment? cur).map fun (n, cur) => (c, n, cur)
  else
    match increment? cur with
    | none => none
    | some (none, cur) => some (.clip, none, cur)
    | some (n, cur) =>
      let (c, cur) := chomping cur
      some (c, n, cur)

/-- Steps over indentation and empty lines, with the line breaks newest first. Also returned
is the deepest indentation that was met. -/
def emptyLines? (indent : Option Nat) (deepest : Nat) (breaks : List Char) :
    Nat → Cursor → Option (Nat × List Char × Cursor)
  | 0, _ => none
  | fuel + 1, cur =>
    let isOpen := indent.all (cur.column < ·)
    match cur.head? with
    | some ' ' =>
      if isOpen then emptyLines? indent deepest breaks fuel cur.next
      else some (max deepest cur.column, breaks, cur)
    | some '\t' => if isOpen then none else some (max deepest cur.column, breaks, cur)
    | _ =>
      let deepest := max deepest cur.column
      if cur.atBreak then emptyLines? indent deepest (cur.breakChar :: breaks) fuel cur.nextLine
      else some (deepest, breaks, cur)

/-- A line up to its end, newest first. -/
def lineChars (chars : List Char) : Nat → Cursor → List Char × Cursor
  | 0, cur => (chars, cur)
  | fuel + 1, cur =>
    match cur.rest with
    | [] => (chars, cur)
    | c :: _ => if isLineBreak c then (chars, cur) else lineChars (c :: chars) fuel cur.next

/-- The lines of a block. `last` is the break of the line before, `breaks` those of the empty
lines after it, and `indented` says that the line before started with a blank. -/
def blockLines? (literal : Bool) (indent : Nat) (chars : List Char) (last : Option Char)
    (breaks : List Char) (indented : Bool) :
    Nat → Cursor → Option (List Char × Option Char × List Char × Cursor)
  | 0, _ => none
  | fuel + 1, cur =>
    if cur.column = indent ∧ !cur.rest.isEmpty then
      let nowIndented := cur.atBlank
      let chars :=
        if !literal && last == some '\n' && !indented && !nowIndented then
          if breaks.isEmpty then ' ' :: chars else breaks ++ chars
        else breaks ++ last.toList ++ chars
      let (chars, cur) := lineChars chars (fuel + 1) cur
      let (last, cur) := if cur.atBreak then (some cur.breakChar, cur.nextLine) else (none, cur)
      match emptyLines? (some indent) 0 [] (fuel + 1) cur with
      | none => none
      | some (_, breaks, cur) => blockLines? literal indent chars last breaks nowIndented fuel cur
    else some (chars, last, breaks, cur)

/-- A block behind its sign. `parent` is the indentation around it. -/
def block? (literal : Bool) (parent : Int) (fuel : Nat) (cur : Cursor) :
    Option (String × Cursor) := do
  let (chomping, increment, cur) ← blockHeader? cur
  let cur ← cur.endLine? fuel
  let given := increment.map fun n => if 0 ≤ parent then parent.toNat + n else n
  let (deepest, breaks, cur) ← emptyLines? given 0 [] fuel cur
  let indent := given.getD (max deepest (max (parent + 1).toNat 1))
  let (chars, last, breaks, cur) ← blockLines? literal indent [] none breaks false fuel cur
  let chars := match chomping with
    | .strip => chars
    | .clip => last.toList ++ chars
    | .keep => breaks ++ last.toList ++ chars
  return (String.ofList chars.reverse, cur)

end Progression.Yaml

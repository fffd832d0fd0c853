import Progression.Pattern.Tree
import Progression.Text.Blank
import Progression.Text.Letter
import Progression.Text.Hex

/-!
Reading patterns. A pattern is read piece by piece into a draft, which holds the branch that
is being read and the groups that are still open.
-/

namespace Progression.Pattern

/-- How what follows is to be read. -/
structure Flags where
  ignoreCase : Bool := false
  multiLine : Bool := false
  dotMatchesAll : Bool := false
  crlf : Bool := false
  /-- Blanks and comments do not count. -/
  spaced : Bool := false
  deriving Repr, DecidableEq

namespace Flags

/-- Switches a flag; none if the letter names no flag. Two of the letters change nothing
about what a pattern matches. -/
def set? (flags : Flags) (on : Bool) : Char → Option Flags
  | 'i' => some { flags with ignoreCase := on }
  | 'm' => some { flags with multiLine := on }
  | 's' => some { flags with dotMatchesAll := on }
  | 'R' => some { flags with crlf := on }
  | 'x' => some { flags with spaced := on }
  | 'U' | 'u' => some flags
  | _ => none

mutual

def dropBlanks : List Char → List Char
  | [] => []
  | c :: cs =>
    if Text.isBlank c then dropBlanks cs
    else if c = '#' then dropComment cs
    else c :: cs

def dropComment : List Char → List Char
  | [] => []
  | c :: cs => if c = '\n' then dropBlanks cs else dropComment cs

end

/-- Steps over what does not count. -/
def skip (flags : Flags) (cs : List Char) : List Char :=
  if flags.spaced then dropBlanks cs else cs

/-- The character that counts next. A comment mark ends the search like any other text
does, but only at what follows it. -/
def peek (flags : Flags) (cs : List Char) : Option Char :=
  if flags.spaced then
    let next := match cs.dropWhile Text.isBlank with
      | '#' :: cs => cs.dropWhile Text.isBlank
      | cs => cs
    (next.head?).or cs.head?
  else cs.head?

def letter (flags : Flags) (c : Char) : Tree :=
  if flags.ignoreCase && c.isAlpha then .set (CharSet.ofSpans [(c.toNat, c.toNat)]).foldCase
  else .char c

def dot (flags : Flags) : CharSet :=
  if flags.dotMatchesAll then (CharSet.mk []).complement
  else if flags.crlf then
    (CharSet.ofSpans [CharSet.span '\n' '\n', CharSet.span '\r' '\r']).complement
  else (CharSet.ofSpans [CharSet.span '\n' '\n']).complement

def startLook (flags : Flags) : Look :=
  if !flags.multiLine then .textStart else if flags.crlf then .crlfLineStart else .lineStart

def endLook (flags : Flags) : Look :=
  if !flags.multiLine then .textEnd else if flags.crlf then .crlfLineEnd else .lineEnd

end Flags

/-! ### Escapes -/

/-- The next code from a hexadecimal digit on. All codes beyond the last are alike. -/
def nextCode (code digit : Nat) : Nat :=
  min (code * 16 + digit) (CharSet.lastCode + 1)

def charOfCode? (code : Nat) : Option Char :=
  if h : code.isValidChar then some (Char.ofNatAux code h) else none

/-- A number of so many hexadecimal digits. -/
def fixedCode? (flags : Flags) (code : Nat) : Nat → List Char → Option (Char × List Char)
  | 0, cs => (charOfCode? code).map (·, cs)
  | _ + 1, [] => none
  | n + 1, c :: cs =>
    match Text.hexDigit? c with
    | some d => fixedCode? flags (nextCode code d) n (flags.skip cs)
    | none => none

/-- Hexadecimal digits up to the closing brace; `fuel` bounds their number. -/
def bracedCode? (flags : Flags) (code : Option Nat) :
    Nat → List Char → Option (Char × List Char)
  | 0, _ => none
  | fuel + 1, cs =>
    match flags.skip cs with
    | [] => none
    | c :: cs =>
      if c = '}' then (code.bind charOfCode?).map (·, flags.skip cs)
      else
        match Text.hexDigit? c with
        | some d => bracedCode? flags (some (nextCode (code.getD 0) d)) fuel cs
        | none => none

/-- A character by its number, behind the letter that says how long the number is. -/
def code? (flags : Flags) (digits : Nat) (cs : List Char) : Option (Char × List Char) :=
  match flags.skip cs with
  | '{' :: cs => bracedCode? flags none (cs.length + 1) cs
  | cs => fixedCode? flags 0 digits cs

/-- Punctuation, blanks and controls stand for themselves behind a backslash, all but two. -/
def isEscapable (c : Char) : Bool :=
  c.toNat < 128 && !c.isAlphanum && c != '<' && c != '>'

def control? : Char → Option Char
  | 'a' => some '\x07'
  | 'f' => some '\x0c'
  | 't' => some '\t'
  | 'n' => some '\n'
  | 'r' => some '\r'
  | 'v' => some '\x0b'
  | _ => none

def look? : Char → Option Look
  | 'A' => some .textStart
  | 'z' => some .textEnd
  | 'b' => some .wordEdge
  | 'B' => some .noWordEdge
  | '<' => some .wordStart
  | '>' => some .wordEnd
  | _ => none

def isEdgeChar (c : Char) : Bool :=
  c.isAlpha || c == '-'

def namedEdge? (name : List Char) : Option Look :=
  if name = "start".toList then some .wordStart
  else if name = "end".toList then some .wordEnd
  else if name = "start-half".toList then some .wordStartHalf
  else if name = "end-half".toList then some .wordEndHalf
  else none

/-- The name of an edge up to the closing brace. The name comes newest first. -/
def edgeName? (flags : Flags) (name : List Char) : Nat → List Char → Option (Look × List Char)
  | 0, _ => none
  | _ + 1, [] => none
  | fuel + 1, c :: cs =>
    if isEdgeChar c then edgeName? flags (c :: name) fuel (flags.skip cs)
    else if c = '}' then (namedEdge? name.reverse).map (·, cs)
    else none

/-- The edge of a word. A name between braces may pick one side; braces around anything
but a name are left for a repetition. -/
def edge? (flags : Flags) (cs : List Char) : Option (Look × List Char) :=
  match cs with
  | '{' :: inner =>
    match flags.skip inner with
    | [] => none
    | c :: rest =>
      if isEdgeChar c then edgeName? flags [] (rest.length + 2) (c :: rest)
      else some (.wordEdge, cs)
  | _ => some (.wordEdge, cs)

/-- What stands behind a backslash. -/
def escape? (flags : Flags) : List Char → Option (Tree × List Char)
  | [] => none
  | c :: cs =>
    if c = 'x' then (code? flags 2 cs).map fun (c, rest) => (flags.letter c, rest)
    else if c = 'u' then (code? flags 4 cs).map fun (c, rest) => (flags.letter c, rest)
    else if c = 'U' then (code? flags 8 cs).map fun (c, rest) => (flags.letter c, rest)
    else if c = 'b' then (edge? flags cs).map fun (l, rest) => (.look l, rest)
    else if isEscapable c then some (flags.letter c, cs)
    else
      match CharSet.lettered? c, control? c, look? c with
      | some s, _, _ => some (.set s, cs)
      | _, some c, _ => some (flags.letter c, cs)
      | _, _, some l => some (.look l, cs)
      | _, _, _ => none

/-! ### Character classes -/

/-- One item of a class: a character, or something behind a backslash. -/
def classItem? (flags : Flags) : Char → List Char → Option (Tree × List Char)
  | '\\', cs => escape? flags cs
  | c, cs => some (.char c, cs)

def itemSpans? : Tree → Option (List (Nat × Nat))
  | .char c => some [(c.toNat, c.toNat)]
  | .set s => some s.spans
  | _ => none

/-- An item or a range of two. A minus sign before the closing bracket or before another
minus sign makes no range. -/
def classRange? (flags : Flags) (c : Char) (cs : List Char) :
    Option (List (Nat × Nat) × List Char) := do
  let (item, rest) ← classItem? flags c cs
  match flags.skip rest with
  | [] => none
  | '-' :: rest =>
    if flags.peek rest == some ']' || flags.peek rest == some '-' then
      return (← itemSpans? item, '-' :: rest)
    else
      match flags.skip rest with
      | [] => none
      | d :: rest =>
        match item, ← classItem? flags d rest with
        | .char first, (.char last, rest) =>
          if first ≤ last then some ([(first.toNat, last.toNat)], rest) else none
        | _, _ => none
  | rest => return (← itemSpans? item, rest)

/-- A named class behind its opening bracket and colon. -/
def namedClass? (cs : List Char) : Option (CharSet × List Char) :=
  let (negated, cs) := match cs with
    | '^' :: cs => (true, cs)
    | cs => (false, cs)
  match cs.dropWhile (· != ':') with
  | ':' :: ']' :: rest =>
    (CharSet.named? (String.ofList (cs.takeWhile (· != ':')))).map fun s =>
      (if negated then s.complement else s, rest)
  | _ => none

/-- A sign that is doubled between the items of a class is kept for other uses. -/
def isDoubled (c : Char) (cs : List Char) : Bool :=
  (c == '&' || c == '-' || c == '~') && cs.head? == some c

def classItems? (flags : Flags) (spans : List (Nat × Nat)) :
    Nat → List Char → Option (List (Nat × Nat) × List Char)
  | 0, _ => none
  | fuel + 1, cs =>
    match flags.skip cs with
    | [] => none
    | ']' :: rest => some (spans, rest)
    | '[' :: ':' :: rest =>
      match namedClass? rest with
      | some (s, rest) => classItems? flags (spans ++ s.spans) fuel rest
      | none => none
    | '[' :: _ => none
    | c :: rest =>
      if isDoubled c rest then none
      else
        match classRange? flags c rest with
        | some (more, rest) => classItems? flags (spans ++ more) fuel rest
        | none => none

/-- The signs that stand for themselves at the start of a class: minus signs, or else a
closing bracket. -/
def classStart (flags : Flags) (spans : List (Nat × Nat)) :
    Nat → List Char → List (Nat × Nat) × List Char
  | 0, cs => (spans, cs)
  | fuel + 1, cs =>
    match flags.skip cs with
    | '-' :: rest => classStart flags (CharSet.span '-' '-' :: spans) fuel rest
    | ']' :: rest =>
      if spans.isEmpty then ([CharSet.span ']' ']'], rest) else (spans, ']' :: rest)
    | cs => (spans, cs)

/-- A class behind its opening bracket. -/
def class? (flags : Flags) (cs : List Char) : Option (CharSet × List Char) := do
  let (negated, cs) := match flags.skip cs with
    | '^' :: cs => (true, cs)
    | cs => (false, cs)
  let (spans, cs) := classStart flags [] (cs.length + 1) cs
  let (spans, rest) ← classItems? flags spans (cs.length + 1) cs
  let s := CharSet.ofSpans spans
  let s := if flags.ignoreCase then s.foldCase else s
  return (if negated then s.complement else s, rest)

/-! ### Repetitions -/

/-- The least number that is too large for a repetition. -/
def timesLimit : Nat := UInt32.size

/-- Digits with what does not count between them; none if there is no digit. -/
def decimal? (flags : Flags) (n : Option Nat) : Nat → List Char → Option (Nat × List Char)
  | 0, _ => none
  | fuel + 1, cs =>
    match cs with
    | c :: rest =>
      if c.isDigit then
        decimal? flags (some (min (n.getD 0 * 10 + (c.toNat - '0'.toNat)) timesLimit)) fuel
          (flags.skip rest)
      else n.map (·, cs)
    | [] => n.map (·, cs)

/-- A number in a repetition, with blanks around it. -/
def bound? (flags : Flags) (cs : List Char) : Option (Nat × List Char) := do
  let cs := cs.dropWhile Text.isBlank
  let (n, rest) ← decimal? flags none (cs.length + 1) cs
  if n < timesLimit then some (n, rest.dropWhile Text.isBlank) else none

/-- What stands behind a repetition to say that few rounds are preferred. -/
def dropLazy : List Char → List Char
  | '?' :: cs => cs
  | cs => cs

/-- The bounds of a repetition behind its opening brace. -/
def bounds? (flags : Flags) (cs : List Char) : Option ((Nat × Option Nat) × List Char) := do
  let (low, rest) ← bound? flags (flags.skip cs)
  let (high, rest) ← match rest with
    | ',' :: rest =>
      match flags.skip rest with
      | '}' :: rest => some (none, '}' :: rest)
      | rest => (bound? flags rest).map fun (high, rest) => (some high, rest)
    | rest => some (some low, rest)
  match rest with
  | '}' :: rest =>
    if high.all (low ≤ ·) then some ((low, high), dropLazy (flags.skip rest)) else none
  | _ => none

/-! ### Groups -/

/-- Flags behind a question mark, up to the colon or the parenthesis that ends them. Blanks
count here. -/
def flags? (flags : Flags) (seen : List Char) (negated afterMinus : Bool) :
    List Char → Option (Flags × List Char)
  | [] => none
  | c :: cs =>
    if c = ':' ∨ c = ')' then if afterMinus then none else some (flags, c :: cs)
    else if c = '-' then if negated then none else flags? flags seen true true cs
    else
      match flags.set? (!negated) c with
      | none => none
      | some flags => if c ∈ seen then none else flags? flags (c :: seen) negated false cs

def isNameStart (c : Char) : Bool :=
  c == '_' || Text.isLetter c

def isNameChar (c : Char) : Bool :=
  c == '_' || c == '.' || c == '[' || c == ']' || Text.isLetterOrNumber c

/-- The name of a group, up to the sign that ends it. -/
def groupName? (cs : List Char) : Option (String × List Char) :=
  match cs.dropWhile (· != '>') with
  | [] => none
  | _ :: rest =>
    let name := cs.takeWhile (· != '>')
    if name.head?.any isNameStart && name.all isNameChar then some (String.ofList name, rest)
    else none

/-- What an opening parenthesis begins. -/
inductive Opening
  | capture (name : Option String)
  | scoped (flags : Flags)
  /-- No group, but flags for the rest of the group around it. -/
  | directive (flags : Flags)

/-- Reads on behind an opening parenthesis. -/
def opening? (flags : Flags) (cs : List Char) : Option (Opening × List Char) :=
  match flags.skip cs with
  | '?' :: '=' :: _ | '?' :: '!' :: _ | '?' :: '<' :: '=' :: _ | '?' :: '<' :: '!' :: _ => none
  | '?' :: 'P' :: '<' :: cs | '?' :: '<' :: cs =>
    (groupName? cs).map fun (name, rest) => (.capture (some name), rest)
  | '?' :: ')' :: _ => none
  | '?' :: cs =>
    match flags? flags [] false false cs with
    | some (flags, ':' :: rest) => some (.scoped flags, rest)
    | some (flags, _ :: rest) => some (.directive flags, rest)
    | _ => none
  | cs => some (.capture none, cs)

/-- A group that is open, with what stood before it in the group around it. -/
structure Level where
  capture : Option Capture
  flags : Flags
  parts : List Tree
  branches : List Tree

/-- A pattern in the making. Parts and branches come newest first. -/
structure Draft where
  flags : Flags := {}
  /-- The number of groups that capture, closed or not. -/
  groups : Nat := 0
  names : List String := []
  parts : List Tree := []
  branches : List Tree := []
  outer : List Level := []

/-- Groups that may be open at once, and trees that may sit inside each other. -/
def depthLimit : Nat := 50

/-- The largest automaton in bytes. -/
def sizeLimit : Nat := 10 * 1024 * 1024

namespace Draft

def push (d : Draft) (t : Tree) : Draft :=
  { d with parts := t :: d.parts }

/-- The branches that have been read, as one tree. -/
def tree (d : Draft) : Tree :=
  .ofBranches (Tree.ofParts d.parts.reverse :: d.branches).reverse

/-- Repeats the last part. -/
def repeatLast? (d : Draft) (min : Nat) (max : Option Nat) : Option Draft :=
  match d.parts with
  | [] => none
  | t :: ts => some { d with parts := t.times min max :: ts }

def openGroup? (d : Draft) (capture : Option Capture) (flags : Flags) : Option Draft :=
  if d.outer.length < depthLimit then
    let outer := ⟨capture, d.flags, d.parts, d.branches⟩ :: d.outer
    some { d with flags, parts := [], branches := [], outer }
  else none

/-- Begins what an opening parenthesis says. No two groups have the same name. -/
def begin? (d : Draft) : Opening → Option Draft
  | .capture name =>
    if name.any d.names.contains then none
    else
      let number := d.groups + 1
      { d with groups := number, names := name.toList ++ d.names }.openGroup?
        (some ⟨number, name⟩) d.flags
  | .scoped flags => d.openGroup? none flags
  | .directive flags => some { d with flags }

/-- Closes a group. The flags of the group around it hold again. -/
def close? (d : Draft) : Option Draft :=
  match d.outer with
  | [] => none
  | level :: outer =>
    let t := match level.capture with
      | some capture => .group capture d.tree
      | none => d.tree
    some
      { d with
        flags := level.flags, parts := t :: level.parts, branches := level.branches, outer }

/-- Reads the piece that starts with a character. -/
def step? (d : Draft) (c : Char) (cs : List Char) : Option (Draft × List Char) :=
  match c with
  | '(' => do
    let (opening, rest) ← opening? d.flags cs
    return (← d.begin? opening, rest)
  | ')' => do return (← d.close?, cs)
  | '|' => some ({ d with parts := [], branches := .ofParts d.parts.reverse :: d.branches }, cs)
  | '[' => (class? d.flags cs).map fun (s, rest) => (d.push (.set s), rest)
  | '?' => do return (← d.repeatLast? 0 (some 1), dropLazy cs)
  | '*' => do return (← d.repeatLast? 0 none, dropLazy cs)
  | '+' => do return (← d.repeatLast? 1 none, dropLazy cs)
  | '{' => do
    let ((low, high), rest) ← bounds? d.flags cs
    return (← d.repeatLast? low high, rest)
  | '\\' => (escape? d.flags cs).map fun (t, rest) => (d.push t, rest)
  | '.' => some (d.push (.set d.flags.dot), cs)
  | '^' => some (d.push (.look d.flags.startLook), cs)
  | '$' => some (d.push (.look d.flags.endLook), cs)
  | c => some (d.push (d.flags.letter c), cs)

/-- Reads to the end. Every piece takes a character, so as much fuel as there are
characters is enough. -/
def run? (d : Draft) : Nat → List Char → Option Draft
  | 0, _ => none
  | fuel + 1, cs =>
    match d.flags.skip cs with
    | [] => if d.outer.isEmpty then some d else none
    | c :: cs =>
      match d.step? c cs with
      | some (d, rest) => run? d fuel rest
      | none => none

end Draft

/-- The tree of a pattern that is neither nested too deeply nor too large. -/
def tree? (text : String) : Option Tree := do
  let cs := text.toList
  let t := (← Draft.run? {} (cs.length + 1) cs).tree
  if t.depth ≤ depthLimit ∧ t.totalSize ≤ sizeLimit then some t else none

end Progression.Pattern

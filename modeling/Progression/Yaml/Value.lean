import Progression.Json.Basic
import Progression.Yaml.Node

/-!
What a YAML document says. Plain words are nothing, truth values, numbers or text by how they
look, unless a tag decides; aliases are put where they point.
-/

namespace Progression.Yaml

namespace Word

def isNull (s : List Char) : Bool :=
  s == "null".toList || s == "Null".toList || s == "NULL".toList || s == ['~']

def bool? (s : List Char) : Option Bool :=
  if s == "true".toList || s == "True".toList || s == "TRUE".toList then some true
  else if s == "false".toList || s == "False".toList || s == "FALSE".toList then some false
  else none

/-- All whole numbers from here on are alike. -/
def integerBound : Nat := UInt64.size * UInt64.size

/-- The value of at least one digit of a base. -/
def digits? (base : Nat) (s : List Char) : Option Nat :=
  if s.isEmpty then none
  else s.foldlM (fun n c => (Text.hexDigit? c).bind fun d =>
    if d < base then some (min (n * base + d) integerBound) else none) 0

/-- Digits that are no number, because a zero stands in front of others. -/
def isPadded (s : List Char) : Bool :=
  match s with
  | '+' :: '0' :: c :: cs | '-' :: '0' :: c :: cs | '0' :: c :: cs => (c :: cs).all Char.isDigit
  | _ => false

/-- A whole number without a sign, in base ten or with the base in front. -/
def natural? : List Char → Option Nat
  | '0' :: 'x' :: s => digits? 16 s
  | '0' :: 'o' :: s => digits? 8 s
  | '0' :: 'b' :: s => digits? 2 s
  | s => digits? 10 s

/-- The numbers of up to 128 bits. -/
def integer? (s : List Char) : Option Int :=
  if isPadded s then none
  else
    match s with
    | '-' :: s => (natural? s).bind fun n => if 2 * n ≤ integerBound then some (-n : Int) else none
    | '+' :: s | s => (natural? s).bind fun n => if n < integerBound then some (n : Int) else none

/-- Digits with a point, an exponent, both or neither: the digits before and after the point,
and the exponent. -/
def decimal? (s : List Char) : Option (List Char × List Char × Int) := do
  let isMark (c : Char) := c == 'e' || c == 'E'
  let whole := s.takeWhile Char.isDigit
  let rest := s.dropWhile Char.isDigit
  let (fraction, rest) := match rest with
    | '.' :: rest => (rest.takeWhile Char.isDigit, rest.dropWhile Char.isDigit)
    | rest => ([], rest)
  if whole.isEmpty && fraction.isEmpty then none
  match rest with
  | [] => some (whole, fraction, 0)
  | c :: rest =>
    if !isMark c then none
    match rest with
    | '-' :: digits => (digits? 10 digits).map fun n => (whole, fraction, (-n : Int))
    | '+' :: digits | digits => (digits? 10 digits).map fun n => (whole, fraction, (n : Int))

/-- The least whole number that rounds to no finite double. It has 309 digits. -/
def beyondDouble : Nat := Nat.pow 2 1024 - Nat.pow 2 970

/-- The number is too large for a double. -/
def overflows (whole fraction : List Char) (exponent : Int) : Bool :=
  let digits := (whole ++ fraction).dropWhile (· == '0')
  let leading := (whole ++ fraction).length - digits.length
  let places : Int := whole.length - leading + exponent
  !digits.isEmpty && (309 < places || (places == 309 &&
    let first := digits.take 309
    beyondDouble ≤ Nat.ofDigitChars 10 first 0 * Nat.pow 10 (309 - first.length)))

/-- What a number that is not whole stands for: a finite one, or nothing. -/
inductive Fraction
  | finite
  | none

/-- A number that is not whole, or too large; infinities stand for nothing. -/
def fraction? (s : List Char) : Option Fraction :=
  let (signed, unsigned) := match s with
    | '+' :: s => (false, s)
    | '-' :: s => (true, s)
    | s => (false, s)
  if unsigned == ".inf".toList || unsigned == ".Inf".toList || unsigned == ".INF".toList then
    some .none
  else if !signed && unsigned == s
      && (s == ".nan".toList || s == ".NaN".toList || s == ".NAN".toList) then some .none
  else
    match decimal? unsigned with
    | some (whole, fraction, exponent) =>
      if overflows whole fraction exponent then none else some .finite
    | none => none

end Word

/-- A whole number that has 64 bits, or nothing. -/
def integerValue? : Int → Option Json
  | .ofNat n => if n < UInt64.size then some (.nat n) else none
  | .negSucc n => if 2 * n < UInt64.size then some (.number (.negative (n + 1))) else none

def fractionValue (s : List Char) : Word.Fraction → Json
  | .finite => .number (.real s)
  | .none => .null

/-- What a word without quotes and tag stands for. -/
def plainValue? (text : String) : Option Json :=
  let s := text.toList
  if s.isEmpty || Word.isNull s then some .null
  else
    match Word.bool? s, Word.integer? s with
    | some b, _ => some (.bool b)
    | none, some n => integerValue? n
    | none, none =>
      if Word.isPadded s then some (.string text)
      else
        match Word.fraction? s with
        | some x => some (fractionValue s x)
        | none => some (.string text)

/-- The name of a tag that everyone knows. -/
def commonTag (name : String) : String :=
  "tag:yaml.org,2002:" ++ name

/-- What a scalar stands for. -/
def scalarValue? (tag : Option String) (text : String) (plain : Bool) : Option Json :=
  let s := text.toList
  match tag with
  | none => if plain then plainValue? text else some (.string text)
  | some t =>
    if t == commonTag "bool" then (Word.bool? s).map .bool
    else if t == commonTag "int" then (Word.integer? s).bind integerValue?
    else if t == commonTag "float" then (Word.fraction? s).map (fractionValue s)
    else if t == commonTag "null" then if Word.isNull s then some .null else none
    else if t.startsWith "!" && plain then plainValue? text
    else some (.string text)

/-- The bytes of a tag are text. -/
def isText (tag : String) : Bool :=
  (String.fromUTF8? ⟨(tag.toList.map fun c => UInt8.ofNat c.toNat).toArray⟩).isSome

/-- A tag that only its document knows. One that is no text does not count. -/
def isLocalTag (tag : Option String) : Bool :=
  tag.any fun t => t.startsWith "!" && isText t

namespace Node

mutual

/-- The anchored nodes with their numbers, the last ones first, in front of `found`. -/
def anchors (found : List (Nat × Node)) : Node → List (Nat × Node)
  | .anchored id n => n.anchors ((id, n) :: found)
  | .sequence _ items => itemAnchors found items
  | .mapping _ entries => entryAnchors found entries
  | _ => found

def itemAnchors (found : List (Nat × Node)) : List Node → List (Nat × Node)
  | [] => found
  | n :: ns => itemAnchors (n.anchors found) ns

def entryAnchors (found : List (Nat × Node)) : List (Node × Node) → List (Nat × Node)
  | [] => found
  | (k, v) :: es => entryAnchors (v.anchors (k.anchors found)) es

end

mutual

/-- Words, aliases and both ends of every collection, counted from `n`. -/
def countParts (n : Nat) : Node → Nat
  | .anchored _ node => node.countParts n
  | .sequence _ items => countItems (n + 2) items
  | .mapping _ entries => countEntries (n + 2) entries
  | _ => n + 1

def countItems (n : Nat) : List Node → Nat
  | [] => n
  | node :: ns => countItems (node.countParts n) ns

def countEntries (n : Nat) : List (Node × Node) → Nat
  | [] => n
  | (k, v) :: es => countEntries (v.countParts (k.countParts n)) es

end

/-- A document as it is read: where its aliases point, and how many of them may be followed. -/
structure Context where
  anchors : List (Nat × Node)
  limit : Nat

/-- Follows an alias, given how many have been followed before. -/
def follow? (ctx : Context) (followed : Nat) : Node → Option (Node × Nat)
  | .anchored _ n => some (n, followed)
  | .alias id =>
    if followed < ctx.limit then
      match ctx.anchors.find? (·.1 == id) with
      | some (_, .anchored _ n) => some (n, followed + 1)
      | some (_, n) => some (n, followed + 1)
      | none => none
    else none
  | n => some (n, followed)

/-- The text of a key. Its tag and its looks do not matter. -/
def key? (ctx : Context) (followed : Nat) (n : Node) : Option (String × Nat) :=
  match follow? ctx followed n with
  | some (.scalar _ text _, followed) => some (text, followed)
  | _ => none

/-- Reads items in turn; what has been read comes newest first. -/
def readItems? (read : Nat → Node → Option (Json × Nat)) (done : List Json) (followed : Nat) :
    List Node → Option (List Json × Nat)
  | [] => some (done.reverse, followed)
  | n :: ns =>
    match read followed n with
    | some (j, followed) => readItems? read (j :: done) followed ns
    | none => none

def readEntries? (ctx : Context) (read : Nat → Node → Option (Json × Nat))
    (done : List (String × Json)) (followed : Nat) :
    List (Node × Node) → Option (List (String × Json) × Nat)
  | [] => some (done.reverse, followed)
  | (k, v) :: es =>
    match key? ctx followed k with
    | none => none
    | some (key, followed) =>
      match read followed v with
      | some (j, followed) => readEntries? ctx read ((key, j) :: done) followed es
      | none => none

/-- What a node stands for, if collections sit at most `depth` deep in it. -/
def value? (ctx : Context) : Nat → Nat → Node → Option (Json × Nat)
  | 0, followed, n =>
    match follow? ctx followed n with
    | some (.scalar tag text plain, followed) =>
      if isLocalTag tag then none else (scalarValue? tag text plain).map (·, followed)
    | _ => none
  | depth + 1, followed, n =>
    match follow? ctx followed n with
    | some (.scalar tag text plain, followed) =>
      if isLocalTag tag then none else (scalarValue? tag text plain).map (·, followed)
    | some (.sequence tag items, followed) =>
      if isLocalTag tag then none
      else (readItems? (value? ctx depth) [] followed items).map fun (js, n) => (.array js, n)
    | some (.mapping tag entries, followed) =>
      if isLocalTag tag then none
      else
        (readEntries? ctx (value? ctx depth) [] followed entries).map fun (ms, n) =>
          (.object ms, n)
    | _ => none

/-- How many aliases may be followed for every part of a document. -/
def aliasFactor : Nat := 100

def withoutAnchor : Node → Node
  | .anchored _ n => n
  | n => n

/-- The members of a document that is a mapping; one that says nothing has none. -/
def members? (root : Node) : Option (List (String × Json)) :=
  let ctx : Context := ⟨root.anchors [], aliasFactor * root.countParts 0⟩
  match root.withoutAnchor with
  | .mapping _ entries =>
    (readEntries? ctx (value? ctx (maxDepth - 1)) [] 0 entries).map (·.1)
  | .scalar _ text plain => if text.isEmpty && plain then some [] else none
  | _ => none

end Node

end Progression.Yaml

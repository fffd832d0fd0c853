import Progression.Pattern.Tree

/-!
Where patterns occur. A place of a text lies before a character or at the end, and a set of
places is a number with a bit for each of them. A pattern moves a set of places to all
places that it can lead to from there; every set is moved at once, so no choice has to be
taken back. Loops remember where they have been and move no place twice, however deep they
sit inside each other.
-/

namespace Progression

def isWordChar (c : Char) : Bool :=
  c.isAlphanum || c == '_'

namespace Look

/-- The condition on the characters before and after a place. -/
def holds (before after : Option Char) : Look → Bool
  | textStart => before.isNone
  | textEnd => after.isNone
  | lineStart => before.isNone || before == some '\n'
  | lineEnd => after.isNone || after == some '\n'
  | crlfLineStart =>
    before.isNone || before == some '\n' || (before == some '\r' && after != some '\n')
  | crlfLineEnd =>
    after.isNone || after == some '\r' || (after == some '\n' && before != some '\r')
  | wordEdge => before.any isWordChar != after.any isWordChar
  | noWordEdge => before.any isWordChar == after.any isWordChar
  | wordStart => !before.any isWordChar && after.any isWordChar
  | wordEnd => before.any isWordChar && !after.any isWordChar
  | wordStartHalf => !before.any isWordChar
  | wordEndHalf => !after.any isWordChar

end Look

namespace Places

/-- Puts neighbours together, each of which has so many places. -/
def joinPairs (width : Nat) : List Nat → List Nat
  | a :: b :: parts => (a ||| b <<< width) :: joinPairs width parts
  | parts => parts

/-- Puts parts together, each of which has so many places; as much fuel as there are parts is
enough. -/
def join (width : Nat) : Nat → List Nat → Nat
  | 0, _ | _, [] => 0
  | _, [places] => places
  | fuel + 1, parts => join (2 * width) fuel (joinPairs width parts)

/-- The places whose items pass a test, the first item being at place 0. -/
def ofList {α : Type} (test : α → Bool) (items : List α) : Nat :=
  join 1 items.length (items.map fun a => (test a).toNat)

/-- All places of a text. -/
def all (text : List Char) : Nat :=
  1 <<< (text.length + 1) - 1

/-- The characters before and after each place. -/
def around (text : List Char) : List (Option Char × Option Char) :=
  (none :: text.map some).zip (text.map some ++ [none])

def without (places others : Nat) : Nat :=
  places - (places &&& others)

/-- The places behind those that are in both sets. -/
def step (here places : Nat) : Nat :=
  2 * (places &&& here)

/-- The places to which any number of steps through `here` lead. Added to a row of places in
`here`, a place in that row turns it into the place behind the row. -/
def run (here places : Nat) : Nat :=
  places ||| ((places &&& here) + here) ^^^ here

end Places

/-- What the parts of a pattern remember of the places that have come to them. -/
inductive Memory
  | blank
  | parts (memories : List Memory)
  /-- Where rounds of a loop have started and where they have ended. -/
  | loop (started ended : Nat) (body : Memory)
  deriving Inhabited

/-- A function on sets of places. It may also lead to places to which earlier sets have led. -/
structure Motion where
  go : Memory → Nat → Nat × Memory
  /-- If the motion is a step, the places from which there is one. -/
  step? : Option Nat := none

namespace Motion

/-- A motion that remembers nothing. -/
def ofMap (f : Nat → Nat) : Motion :=
  { go := fun memory places => (f places, memory) }

def ofStep (here : Nat) : Motion :=
  { ofMap (Places.step here) with step? := some here }

def memories : Memory → List Memory
  | .parts ms => ms
  | _ => []

/-- Moves by one motion after the other; here and below, what has been remembered comes newest
first. -/
def chain (done : List Memory) : List Motion → List Memory → Nat → Nat × Memory
  | [], _, places => (places, .parts done.reverse)
  | m :: ms, old, places =>
    if places = 0 then (0, .parts (done.reverse ++ old))
    else
      let (places, memory) := m.go (old.headD .blank) places
      chain (memory :: done) ms old.tail places

/-- Moves by each of the motions. -/
def fork (reached : Nat) (done : List Memory) : List Motion → List Memory → Nat → Nat × Memory
  | [], _, _ => (reached, .parts done.reverse)
  | m :: ms, old, places =>
    let (more, memory) := m.go (old.headD .blank) places
    fork (reached ||| more) (memory :: done) ms old.tail places

/-- Moves at most so many times. Only places that have not been reached before move on. -/
def upTo (m : Motion) (reached : Nat) (done : List Memory) :
    Nat → List Memory → Nat → Nat × Memory
  | 0, old, _ => (reached, .parts (done.reverse ++ old))
  | left + 1, old, fresh =>
    if fresh = 0 then (reached, .parts (done.reverse ++ old))
    else
      let (more, memory) := m.go (old.headD .blank) fresh
      upTo m (reached ||| more) (memory :: done) left old.tail (Places.without more reached)

/-- Goes rounds until none starts at a new place, `fuel` being more than the number of
places. -/
def rounds (m : Motion) (started ended : Nat) (body : Memory) : Nat → Nat → Nat × Nat × Memory
  | 0, _ => (started, ended, body)
  | fuel + 1, fresh =>
    if fresh = 0 then (started, ended, body)
    else
      let (more, body) := m.go body fresh
      let started := started ||| fresh
      rounds m started (ended ||| more) body fuel (Places.without more started)

/-- Moves any number of times, perhaps at least once. -/
def loop (m : Motion) (atLeastOnce : Bool) (fuel : Nat) : Motion :=
  match m.step? with
  | some here =>
    ofMap fun places => Places.run here (if atLeastOnce then Places.step here places else places)
  | none =>
    { go := fun memory places =>
        let (started, ended, body) := match memory with
          | .loop started ended body => (started, ended, body)
          | _ => (0, 0, .blank)
        let (started, ended, body) :=
          rounds m started ended body fuel (Places.without places started)
        (if atLeastOnce then ended else started, .loop started ended body) }

def inTurn (motions : List Motion) : Motion :=
  { go := fun memory => chain [] motions (memories memory) }

/-- Moves by any of the motions; a choice between steps is a step. -/
def each (motions : List Motion) : Motion :=
  match motions.mapM step? with
  | some heres => ofStep (heres.foldl (· ||| ·) 0)
  | none => { go := fun memory => fork 0 [] motions (memories memory) }

/-- Moves a number of times. A text of `length` characters has one place more, and more
moves than places lead to nothing new. -/
def times (m : Motion) (length count : Nat) : Motion :=
  inTurn (List.replicate (min count (length + 1)) m)

/-- Moves as often as a repetition says. -/
def repeated (m : Motion) (length min : Nat) (max : Option Nat) : Motion :=
  match max with
  | some max =>
    let more : Motion :=
      { go := fun memory places => upTo m places [] (max - min) (memories memory) places }
    inTurn [times m length min, more]
  | none => inTurn [times m length (min - 1), loop m (0 < min) (length + 2)]

end Motion

namespace Tree

mutual

def motion (text : List Char) : Tree → Motion
  | empty => .ofMap id
  | char c => .ofStep (Places.ofList (· == c) text)
  | set s => .ofStep (Places.ofList s.contains text)
  | look l =>
    let here := Places.ofList (fun (before, after) => l.holds before after) (Places.around text)
    .ofMap (· &&& here)
  | sequence ts => .inTurn (motions text ts)
  | choice ts => .each (motions text ts)
  | repeated min max t => (motion text t).repeated text.length min max
  | group _ t => motion text t

def motions (text : List Char) : List Tree → List Motion
  | [] => []
  | t :: ts => motion text t :: motions text ts

end

/-- The pattern leads from some place of the text to another. -/
def occursIn (t : Tree) (text : List Char) : Bool :=
  ((t.motion text).go .blank (Places.all text)).1 != 0

end Tree

end Progression

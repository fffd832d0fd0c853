import Progression.Json.Number

/-!
JSON values. Members of an object keep their order and repeated keys, so that a reader
can see what was written; `Json.distinct` says which member counts.
-/

namespace Progression

inductive Json
  | null
  | bool (b : Bool)
  | number (n : Json.Number)
  | string (s : String)
  | array (items : List Json)
  | object (members : List (String × Json))
  /-- Well formed, but without a value: a number beyond the doubles, text with half of a
  surrogate pair, a container nested too deeply, an object with such a key. It may be
  stepped over, never read. -/
  | unreadable
  deriving Repr, Inhabited

namespace Json

/-- Containers that may be open at once. -/
def maxDepth : Nat := 127

/-- The members that count: of several with one key the last. -/
def distinct {α : Type} : List (String × α) → List (String × α)
  | [] => []
  | m :: ms => if ms.any (·.1 == m.1) then distinct ms else m :: distinct ms

def nat (n : Nat) : Json :=
  .number (.natural n)

def strings (names : List String) : Json :=
  .array (names.map .string)

mutual

/-- Every part has a value. -/
def isReadable : Json → Bool
  | .array items => isReadableAll items
  | .object members => areReadable members
  | .unreadable => false
  | _ => true

def isReadableAll : List Json → Bool
  | [] => true
  | j :: js => j.isReadable && isReadableAll js

def areReadable : List (String × Json) → Bool
  | [] => true
  | (_, j) :: ms => j.isReadable && areReadable ms

end

mutual

/-- How many containers sit inside each other, this one included. -/
def depth : Json → Nat
  | .array items => depthItems items + 1
  | .object members => depthMembers members + 1
  | _ => 0

def depthItems : List Json → Nat
  | [] => 0
  | j :: js => max j.depth (depthItems js)

def depthMembers : List (String × Json) → Nat
  | [] => 0
  | (_, j) :: ms => max j.depth (depthMembers ms)

end

end Json

end Progression

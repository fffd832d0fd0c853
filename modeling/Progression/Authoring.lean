import Progression.Gate
import Progression.Json.Basic

/-!
The notation in which rule files write gates. A name asks for that name, a list asks for
all of its items, null asks for nothing, and an object with a single key picks a kind.
Lists and objects inside a list are gates written in place.
-/

namespace Progression.Authoring

/-- Gates written in place may nest this deep. -/
def maxNesting : Nat := 32

/-- Why a value is no gate. -/
inductive Fault
  | notAnExpression
  | keyCount (found : Nat)
  | unknownKind (key : String)
  | badBody (key : String)
  | countBody
  | countThreshold
  | tooDeep
  deriving Repr, DecidableEq

def Fault.message : Fault → String
  | .notAnExpression => "expected a name, list, map, or null"
  | .keyCount found => "expected a single kind key, found " ++ toString found
  | .unknownKind key => "unknown node kind `" ++ key ++ "`"
  | .badBody key => "`" ++ key ++ "` expects a name or a list"
  | .countBody => "`count` expects [threshold, resource]"
  | .countThreshold => "`count` threshold must be a non-negative integer"
  | .tooDeep => "nests deeper than " ++ toString maxNesting ++ " levels"

/-- A threshold is a plain whole number of at most 32 bits. -/
def threshold? : Json → Option UInt32
  | .number (.natural n) => if n < UInt32.size then some (UInt32.ofNat n) else none
  | _ => none

/-- The body of a count gate: a threshold and the name of a resource. -/
def countGate : Json → Except Fault Gate
  | .array [threshold, .string resource] =>
    match threshold? threshold with
    | some min => .ok (.count min resource)
    | none => .error .countThreshold
  | _ => .error .countBody

mutual

/-- Reads a gate that sits inside `level` others. -/
def gate (level : Nat) (j : Json) : Except Fault Gate :=
  if maxNesting < level then .error .tooDeep
  else
    match j with
    | .null => .ok .root
    | .string name => .ok ⟨.and, [.named name]⟩
    | .array items => do return ⟨.and, ← parents level items⟩
    | .object members => kindGate level members
    | _ => .error .notAnExpression

/-- Reads the members of an object. There has to be one key; where it is repeated the
last body counts. -/
def kindGate (level : Nat) : List (String × Json) → Except Fault Gate
  | [] => .error (.keyCount 0)
  | [(key, body)] =>
    if key = "count" then countGate body
    else
      match Kind.ofLabel? key with
      | none => .error (.unknownKind key)
      | some kind => do return ⟨kind, ← bodyParents level key body⟩
  | (key, _) :: m :: ms =>
    if m.1 = key then kindGate level (m :: ms)
    else .error (.keyCount (Json.distinct ((key, .null) :: m :: ms)).length)

/-- Reads what stands behind the key of a kind. -/
def bodyParents (level : Nat) (key : String) : Json → Except Fault (List Parent)
  | .null => .ok []
  | .string name => .ok [.named name]
  | .array items => parents level items
  | .object members =>
    if maxNesting < level + 1 then .error .tooDeep
    else do return [(← kindGate (level + 1) members).inline]
  | _ => .error (.badBody key)

def parents (level : Nat) : List Json → Except Fault (List Parent)
  | [] => .ok []
  | .string name :: js => do return .named name :: (← parents level js)
  | j :: js => do
    let g ← gate (level + 1) j
    return g.inline :: (← parents level js)

end

/-- Reads the expression of a rule. -/
def ruleGate (j : Json) : Except Fault Gate :=
  gate 0 j

end Progression.Authoring

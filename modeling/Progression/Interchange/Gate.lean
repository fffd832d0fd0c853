import Progression.Gate
import Progression.Json.Printer
import Progression.Json.Reader
import Progression.Json.Record

/-!
Gates in the form in which programs exchange them. A gate is a record of its kind and its
parents; a parent is a choice between a name and a gate. Every gate has one written form,
but readers take others for it.
-/

namespace Progression

namespace Kind

def toJson : Kind → Json
  | .count min => .object [("count", .object [("min", .nat min.toNat)])]
  | kind => .string kind.label

def threshold? (body : Json) : Option Kind :=
  match Json.fields? .json false ["min"] body with
  | some [some min] => (Json.natural? UInt32.size min).map fun n => .count (UInt32.ofNat n)
  | _ => none

def ofJson? (j : Json) : Option Kind :=
  match j with
  | .object [("count", body)] => threshold? body
  | _ => (Json.choice? .json j).bind ofLabel?

end Kind

namespace Parent

mutual

def toJson : Parent → Json
  | .named name => .object [("named", .string name)]
  | .inline kind parents =>
    .object [("inline", .object [("kind", kind.toJson), ("parents", .array (listToJson parents))])]

def listToJson : List Parent → List Json
  | [] => []
  | p :: ps => p.toJson :: listToJson ps

end

mutual

def ofJson? : Json → Option Parent
  | .object [(key, body)] =>
    if key = "named" then (Json.text? body).map .named
    else if key = "inline" then (gate? body).map Gate.inline
    else none
  | _ => none

def gate? : Json → Option Gate
  | .object members => gateMembers? none none members
  | .array [kind, parents] => do return ⟨← Kind.ofJson? kind, ← list? parents⟩
  | _ => none

/-- Goes through the members of a gate with what has been found so far. -/
def gateMembers? (kind : Option Kind) (parents : Option (List Parent)) :
    List (String × Json) → Option Gate
  | [] => do return ⟨← kind, ← parents⟩
  | (key, j) :: ms =>
    if key = "kind" then
      if kind.isSome then none
      else
        match Kind.ofJson? j with
        | some k => gateMembers? (some k) parents ms
        | none => none
    else if key = "parents" then
      if parents.isSome then none
      else
        match list? j with
        | some ps => gateMembers? kind (some ps) ms
        | none => none
    else gateMembers? kind parents ms

def list? : Json → Option (List Parent)
  | .array items => all? items
  | _ => none

def all? : List Json → Option (List Parent)
  | [] => some []
  | j :: js => do return (← ofJson? j) :: (← all? js)

end

end Parent

namespace Gate

def toJson (gate : Gate) : Json :=
  .object [("kind", gate.kind.toJson), ("parents", .array (Parent.listToJson gate.parents))]

def ofJson? (j : Json) : Option Gate :=
  Parent.gate? j

/-- The gate as text in one line. -/
def json (gate : Gate) : String :=
  gate.toJson.compact

def parse? (text : String) : Option Gate :=
  (Json.parse? text).bind ofJson?

end Gate

end Progression

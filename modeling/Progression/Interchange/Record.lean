import Progression.Export
import Progression.Inventory
import Progression.Placement

/-!
Placements, inventories, difficulties and exports in the form in which programs exchange
them.
-/

namespace Progression

namespace Placement

def toJson (record : Placement) : Json :=
  .object [("location", .string record.location), ("treasure", .string record.treasure)]

def ofJson? (j : Json) : Option Placement :=
  match Json.fields? .json false ["location", "treasure"] j with
  | some [some location, some treasure] =>
    return ⟨← Json.text? location, ← Json.text? treasure⟩
  | _ => none

def listToJson (records : List Placement) : Json :=
  .array (records.map toJson)

def listOfJson? : Json → Option (List Placement) :=
  Json.list? ofJson?

end Placement

namespace Inventory

def toJson (inventory : Inventory) : Json :=
  .strings inventory.items

def ofJson? (j : Json) : Option Inventory :=
  (Json.texts? j).map ofList

end Inventory

namespace Difficulty

def label : Difficulty → String
  | .normal => "normal"
  | .hard => "hard"

def ofLabel? (label : String) : Option Difficulty :=
  [normal, hard].find? (·.label == label)

def toJson (difficulty : Difficulty) : Json :=
  .string difficulty.label

def ofJson? (j : Json) : Option Difficulty :=
  (Json.choice? .json j).bind ofLabel?

end Difficulty

def ExportedNode.ofJson? (j : Json) : Option ExportedNode :=
  match Json.fields? .json false ["kind", "parents", "placements", "source"] j with
  | some [some kind, some parents, placements, some source] =>
    return ⟨← Kind.ofJson? kind, ← Json.texts? parents,
      ← Json.orDefault [] Json.texts? placements, ← Json.text? source⟩
  | _ => none

/-- Of several nodes with one name the last counts. -/
def Export.ofJson? : Json → Option Export
  | .object members => do
    let nodes ← members.mapM fun (name, j) => (ExportedNode.ofJson? j).map (name, ·)
    return ofNodes (Json.distinct nodes)
  | _ => none

def Export.parse? (text : String) : Option Export :=
  (Json.parse? text).bind ofJson?

/-- The number of a symbol or node. -/
def Json.number? : Json → Option Nat :=
  natural? UInt64.size

end Progression

import Progression.Interchange.Gate
import Progression.Ron

/-!
Exports: the nodes of a graph by name, with parents and placements as names, and their
texts in two notations.
-/

namespace Progression

structure ExportedNode where
  kind : Kind
  parents : List String
  placements : List String := []
  source : String
  deriving Repr, DecidableEq

/-- Nodes in the order of their names. -/
abbrev Export := List (String × ExportedNode)

/-- Puts the nodes in order. Names are not repeated. -/
def Export.ofNodes (nodes : List (String × ExportedNode)) : Export :=
  nodes.mergeSort fun a b => decide (a.1 ≤ b.1)

/-- The list of placements is left out when there are none. -/
def ExportedNode.toJson (node : ExportedNode) : Json :=
  .object <|
    [("kind", node.kind.toJson), ("parents", .strings node.parents)]
      ++ (if node.placements.isEmpty then [] else [("placements", .strings node.placements)])
      ++ [("source", .string node.source)]

def Export.toJson (e : Export) : Json :=
  .object (e.map fun (name, node) => (name, node.toJson))

def Kind.toRon : Kind → Ron
  | .count min => .variant "count" [("min", .nat min.toNat)]
  | kind => .unit kind.label

def ExportedNode.toRon (node : ExportedNode) : Ron :=
  .struct <|
    [("kind", node.kind.toRon), ("parents", .list (node.parents.map .string))]
      ++ (if node.placements.isEmpty then []
        else [("placements", .list (node.placements.map .string))])
      ++ [("source", .string node.source)]

def Export.toRon (e : Export) : Ron :=
  .map (e.map fun (name, node) => (.string name, node.toRon))

def Export.json (e : Export) : String :=
  e.toJson.pretty

def Export.ron (e : Export) : String :=
  e.toRon.pretty

end Progression

import Std.Data.TreeSet
import Progression.Placement
import Progression.Export

/-!
Frozen graphs. Once every mentioned name has a node, symbols become node ids and the graph
can be read by id. Besides what a node needs, a graph knows which nodes may open next when
a node opens.
-/

namespace Progression

abbrev NodeId := Nat

/-- What the evaluation of a node looks at. -/
structure Wiring where
  kind : Kind
  parents : List NodeId
  placements : List NodeId
  deriving Repr, DecidableEq

namespace Wiring

def sources (w : Wiring) : List NodeId :=
  w.parents ++ w.placements

/-- The sources of the node at a place, if there is one. -/
def sourcesAt (wirings : List Wiring) (id : NodeId) : List NodeId :=
  ((wirings[id]?).map sources).getD []

/-- Every node that evaluation of `w` may look at: its own sources and, for a count gate,
theirs. -/
def reads (wirings : List Wiring) (w : Wiring) : List NodeId :=
  w.sources ++ (if w.kind.isCount then w.sources.flatMap (sourcesAt wirings) else [])

/-- For every node the nodes that look at it, in order. -/
def dependents (wirings : List Wiring) : List (List NodeId) :=
  let seen : List (Std.TreeSet NodeId) := wirings.map fun w => .ofList (reads wirings w)
  (List.range wirings.length).map fun p =>
    seen.zipIdx.filterMap fun (ids, d) => if ids.contains p then some d else none

end Wiring

structure GraphNode where
  name : String
  wiring : Wiring
  source : String
  placeable : Bool
  deriving Repr, DecidableEq

structure Graph where
  nodes : List GraphNode
  /-- For every node the nodes that may open once it does. -/
  dependents : List (List NodeId)
  deriving Repr, DecidableEq

/-- A node that names one without a definition. -/
structure UnresolvedReference where
  node : String
  missing : String
  deriving Repr, DecidableEq

namespace UnresolvedReference

def display (r : UnresolvedReference) : String :=
  "node `" ++ r.node ++ "` references nonexistent node `" ++ r.missing ++ "`"

def le (a b : UnresolvedReference) : Bool :=
  if a.node = b.node then decide (a.missing ≤ b.missing) else decide (a.node ≤ b.node)

/-- Drops repetitions that stand side by side. -/
def dropRepeats : List UnresolvedReference → List UnresolvedReference
  | a :: b :: rs => if a = b then dropRepeats (b :: rs) else a :: dropRepeats (b :: rs)
  | rs => rs

end UnresolvedReference

structure FreezeError where
  /-- In order and without repetition. -/
  references : List UnresolvedReference
  deriving Repr, DecidableEq

def FreezeError.message (e : FreezeError) : String :=
  toString e.references.length ++ " unresolved reference(s): "
    ++ String.intercalate "; " (e.references.map UnresolvedReference.display)

namespace FlatTable

def exportNode (table : FlatTable) (node : FlatNode) : ExportedNode :=
  ⟨node.kind, node.parents.map table.name, node.placements.map table.name, node.source⟩

def exportWhere (table : FlatTable) (keep : FlatNode → Bool) : Export :=
  .ofNodes <| (table.defined.filter fun (_, node) => keep node).map fun (s, node) =>
    (table.name s, table.exportNode node)

def toExport (table : FlatTable) : Export :=
  table.exportWhere fun _ => true

/-- Items: the roots of placeable tables. -/
def extraItems (table : FlatTable) : Export :=
  table.exportWhere fun node => node.placeable && node.kind.isRoot

/-- References to names without a node. -/
def unresolved (table : FlatTable) : List UnresolvedReference :=
  let found := table.defined.flatMap fun (s, node) =>
    ((node.parents ++ node.placements).filter fun p => (table.node? p).isNone).map fun p =>
      ⟨table.name s, table.name p⟩
  UnresolvedReference.dropRepeats (found.mergeSort UnresolvedReference.le)

/-- Freezes a table in which every name that a node mentions has a node. -/
def freeze (table : FlatTable) : Except FreezeError Graph :=
  let unresolved := table.unresolved
  if unresolved.isEmpty then
    let nodes := table.defined.map fun (s, node) =>
      (⟨table.name s, ⟨node.kind, node.parents, node.placements⟩, node.source,
        node.placeable⟩ : GraphNode)
    .ok ⟨nodes, Wiring.dependents (nodes.map GraphNode.wiring)⟩
  else .error ⟨unresolved⟩

end FlatTable

namespace Graph

def size (g : Graph) : Nat :=
  g.nodes.length

def node? (g : Graph) (id : NodeId) : Option GraphNode :=
  g.nodes[id]?

def lookup? (g : Graph) (name : String) : Option NodeId :=
  g.nodes.findIdx? (·.name == name)

def name (g : Graph) (id : NodeId) : String :=
  ((g.node? id).map GraphNode.name).getD ""

def kind? (g : Graph) (id : NodeId) : Option Kind :=
  (g.node? id).map (·.wiring.kind)

def parents (g : Graph) (id : NodeId) : List NodeId :=
  ((g.node? id).map (·.wiring.parents)).getD []

def placements (g : Graph) (id : NodeId) : List NodeId :=
  ((g.node? id).map (·.wiring.placements)).getD []

def dependentsOf (g : Graph) (id : NodeId) : List NodeId :=
  g.dependents.getD id []

def source? (g : Graph) (id : NodeId) : Option String :=
  (g.node? id).map GraphNode.source

def ids (g : Graph) : List NodeId :=
  List.range g.size

def slots (g : Graph) : List NodeId :=
  g.ids.filter fun id => (g.kind? id).any Kind.isSlot

def steps (g : Graph) : List NodeId :=
  g.ids.filter fun id => (g.kind? id).any Kind.isStep

def exportWhere (g : Graph) (keep : GraphNode → Bool) : Export :=
  .ofNodes <| (g.nodes.filter keep).map fun node =>
    (node.name, ⟨node.wiring.kind, node.wiring.parents.map g.name,
      node.wiring.placements.map g.name, node.source⟩)

def toExport (g : Graph) : Export :=
  g.exportWhere fun _ => true

def extraItems (g : Graph) : Export :=
  g.exportWhere fun node => node.placeable && node.wiring.kind.isRoot

end Graph

end Progression

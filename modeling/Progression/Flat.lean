import Progression.Symbol
import Progression.Table

/-!
Flat tables: rules whose parents are all symbols. A symbol without a node is a name that
is mentioned but not defined.
-/

namespace Progression

structure FlatNode where
  kind : Kind
  /-- In the order in which they were written. -/
  parents : List Symbol
  /-- Places where the node's item has been put. Any of them yields the node, whatever
  its kind. -/
  placements : List Symbol := []
  /-- The table that defines the node, or the rule it was written in. -/
  source : String
  placeable : Bool := false
  deriving Repr, DecidableEq

/-- What flattening has done. -/
structure FlattenStats where
  /-- Rounds that gave a name to at least one gate. -/
  rounds : Nat := 0
  /-- Gates that were given a name. -/
  synthesized : Nat := 0
  deriving Repr, DecidableEq

structure FlatTable where
  symbols : SymbolTable := .empty
  /-- The node of each symbol. -/
  nodes : Array (Option FlatNode) := #[]
  stats : FlattenStats := {}

namespace FlatTable

def empty : FlatTable := {}

def node? (table : FlatTable) (s : Symbol) : Option FlatNode :=
  (table.nodes[s]?).join

def name (table : FlatTable) (s : Symbol) : String :=
  table.symbols.name s

def symbol? (table : FlatTable) (name : String) : Option Symbol :=
  table.symbols.get? name

def get? (table : FlatTable) (name : String) : Option FlatNode :=
  (table.symbol? name).bind table.node?

def contains (table : FlatTable) (name : String) : Bool :=
  (table.get? name).isSome

/-- The symbols with a node, in order. -/
def defined (table : FlatTable) : List (Symbol × FlatNode) :=
  table.nodes.toList.zipIdx.filterMap fun (node, s) => node.map (s, ·)

def size (table : FlatTable) : Nat :=
  table.nodes.countP Option.isSome

def isEmpty (table : FlatTable) : Bool :=
  table.size == 0

/-- The symbol of a name. A new name has no node yet. -/
def intern : FlatTable → String → FlatTable × Symbol
  | ⟨symbols, nodes, stats⟩, name =>
    let (symbols, s) := symbols.intern name
    (⟨symbols, if nodes.size < symbols.size then nodes.push none else nodes, stats⟩, s)

def internAll (table : FlatTable) : List String → FlatTable × List Symbol
  | [] => (table, [])
  | name :: names =>
    let (table, s) := table.intern name
    let (table, ss) := table.internAll names
    (table, s :: ss)

def define (table : FlatTable) (s : Symbol) (node : FlatNode) : FlatTable :=
  { table with nodes := table.nodes.setIfInBounds s (some node) }

/-- The nodes as rules that mention each other by name. Placements are left out. -/
def toTable (table : FlatTable) (label : String) : Table where
  name := label
  entries := table.defined.map fun (s, node) =>
    (table.name s, ⟨node.kind, node.parents.map fun p => .named (table.name p)⟩)

end FlatTable

end Progression

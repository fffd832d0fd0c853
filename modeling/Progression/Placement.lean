import Progression.Flat

/-!
Placements: where the items of a game have been put. A record gives one more way to obtain
its treasure; treasures that no rule defines get a node that is obtained in no other way.
-/

namespace Progression

structure Placement where
  location : String
  treasure : String
  deriving Repr, DecidableEq

structure LinkStats where
  edgesAdded : Nat := 0
  nodesCreated : Nat := 0
  unchanged : Nat := 0
  deriving Repr, DecidableEq

/-- Nothing was added. -/
def LinkStats.isNoop (stats : LinkStats) : Bool :=
  stats.edgesAdded == 0 && stats.nodesCreated == 0

namespace FlatTable

/-- The source of nodes that come from placements alone. -/
def linkageSource : String := "linkage"

/-- Adds a location to the node of a treasure, unless the node has it already. -/
def place (table : FlatTable) (stats : LinkStats) (location treasure : Symbol) :
    FlatTable × LinkStats :=
  match table.node? treasure with
  | some node =>
    if location ∈ node.placements then (table, { stats with unchanged := stats.unchanged + 1 })
    else
      (table.define treasure { node with placements := node.placements ++ [location] },
        { stats with edgesAdded := stats.edgesAdded + 1 })
  | none =>
    (table.define treasure ⟨.and, [], [location], linkageSource, false⟩,
      { stats with nodesCreated := stats.nodesCreated + 1 })

def linkRecord (table : FlatTable) (stats : LinkStats) (record : Placement) :
    FlatTable × LinkStats :=
  let (table, location) := table.intern record.location
  let (table, treasure) := table.intern record.treasure
  table.place stats location treasure

/-- Applies records in turn. -/
def link (table : FlatTable) (records : List Placement) : FlatTable × LinkStats :=
  records.foldl (fun (table, stats) record => table.linkRecord stats record) (table, {})

end FlatTable

end Progression

import Progression.Gate

/-!
Rule tables: named gates in the order in which they were written. A table may hold a
name twice; that is found when tables are merged.
-/

namespace Progression

structure Table where
  name : String
  /-- The root rules of a placeable table are items that the game may put into slots. -/
  placeable : Bool := false
  entries : List (String × Gate) := []
  deriving Repr, DecidableEq, Inhabited

namespace Table

def extend (table : Table) (entries : List (String × Gate)) : Table :=
  { table with entries := table.entries ++ entries }

/-- The first rule of that name. -/
def get? (table : Table) (name : String) : Option Gate :=
  (table.entries.find? (·.1 == name)).map (·.2)

def size (table : Table) : Nat :=
  table.entries.length

def isEmpty (table : Table) : Bool :=
  table.entries.isEmpty

end Table

end Progression

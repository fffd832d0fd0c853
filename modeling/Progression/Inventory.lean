/-!
What a player starts with, and how hard the tricks are that the player accepts.
-/

namespace Progression

/-- Item names in order and without repetition. -/
structure Inventory where
  items : List String := []
  deriving Repr, DecidableEq

namespace Inventory

def empty : Inventory := {}

def contains (inventory : Inventory) (item : String) : Bool :=
  inventory.items.contains item

/-- Puts an item in its place, unless it is there already. -/
def place (item : String) : List String → List String
  | [] => [item]
  | i :: is =>
    if item = i then i :: is
    else if item < i then item :: i :: is
    else i :: place item is

def insert (inventory : Inventory) (item : String) : Inventory :=
  ⟨place item inventory.items⟩

def ofList (items : List String) : Inventory :=
  items.foldl insert empty

def size (inventory : Inventory) : Nat :=
  inventory.items.length

end Inventory

inductive Difficulty
  | normal | hard
  deriving Repr, DecidableEq

def Difficulty.allowsHard : Difficulty → Bool
  | .normal => false
  | .hard => true

end Progression

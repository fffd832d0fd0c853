import Progression.Graph
import Progression.Inventory

/-!
Reachability. Starting from an inventory, nodes open until no further node can. A queue
holds the nodes that are worth a look; when a node opens, those that look at it join the
queue. The result does not depend on the order in which nodes are looked at, but the order
in which they open is kept.
-/

namespace Progression

/-- What the solver asks of a graph. Ids from `count` on are out of range and never open. -/
structure Reader where
  count : Nat
  lookup? : String → Option NodeId
  name : NodeId → String
  kind? : NodeId → Option Kind
  parents : NodeId → List NodeId
  placements : NodeId → List NodeId
  dependents : NodeId → List NodeId

def Graph.reader (g : Graph) : Reader where
  count := g.size
  lookup? := g.lookup?
  name := g.name
  kind? := g.kind?
  parents := g.parents
  placements := g.placements
  dependents := g.dependentsOf

inductive SolveError
  | unknownItem (item : String)
  | unknownNode (name : String)
  deriving Repr, DecidableEq

def SolveError.message : SolveError → String
  | .unknownItem item => "inventory item `" ++ item ++ "` is not a node in the graph"
  | .unknownNode name => "unknown node `" ++ name ++ "`"

/-- The open nodes in the order in which they opened. -/
structure Reached where
  order : List NodeId
  deriving Repr, DecidableEq

namespace Reached

def contains (r : Reached) (id : NodeId) : Bool :=
  r.order.contains id

def size (r : Reached) : Nat :=
  r.order.length

def containsName (r : Reached) (reader : Reader) (name : String) : Bool :=
  (reader.lookup? name).any r.contains

/-- The names of the open nodes with some property, in order. -/
def namesWhere (r : Reached) (reader : Reader) (keep : NodeId → Bool) : List String :=
  ((r.order.filter keep).map reader.name).mergeSort fun a b => decide (a ≤ b)

end Reached

namespace Reader

/-- Goes through producers and counts the open ones, stopping as soon as `min` are met or
can no longer be met. `remaining` bounds how many are still to come. -/
def tally (isOpen : NodeId → Bool) (min : Nat) (satisfied remaining : Nat) :
    List NodeId → Bool
  | [] => min ≤ satisfied
  | p :: ps =>
    let satisfied := if isOpen p then satisfied + 1 else satisfied
    if isOpen p && min ≤ satisfied then true
    else
      let remaining := remaining - 1
      if satisfied + remaining < min then false
      else tally isOpen min satisfied remaining ps

/-- At least `min` producers of the resource are open. A producer that has been placed and
is authored as well counts as authored. -/
def countHolds (r : Reader) (isOpen : NodeId → Bool) (min : Nat) (parents : List NodeId) : Bool :=
  if min = 0 then true
  else
    match parents with
    | [] => false
    | resource :: _ =>
      let authored := r.parents resource
      let placed := r.placements resource
      tally isOpen min 0 (authored.length + placed.length)
        (authored ++ placed.filter (!authored.contains ·))

/-- The node opens, given which nodes are open. Any open placement opens it; a node that
has placements and no parents opens in no other way. -/
def holds (r : Reader) (difficulty : Difficulty) (isOpen : NodeId → Bool) (id : NodeId) : Bool :=
  match r.kind? id with
  | none => false
  | some kind =>
    let parents := r.parents id
    let placements := r.placements id
    if placements.any isOpen then true
    else if !placements.isEmpty && parents.isEmpty then false
    else if kind.isHard && !difficulty.allowsHard then false
    else
      match kind.combinator with
      | .all => parents.all isOpen
      | .any => parents.any isOpen
      | .atLeast min => r.countHolds isOpen min.toNat parents

/-- Open nodes, and nodes to look at. -/
structure Search where
  order : List NodeId := []
  queue : List NodeId := []
  deriving Repr, DecidableEq

/-- Opens a node that is in range and not open yet. -/
def mark (r : Reader) (s : Search) (id : NodeId) : Search :=
  if id < r.count ∧ id ∉ s.order then
    ⟨s.order ++ [id], s.queue ++ r.dependents id⟩
  else s

/-- Opens the nodes of items in turn. -/
def markItems (r : Reader) (s : Search) : List String → Except SolveError Search
  | [] => .ok s
  | item :: items =>
    match r.lookup? item with
    | none => .error (.unknownItem item)
    | some id => markItems r (r.mark s id) items

/-- Nodes in range that are not open. -/
def closedCount (r : Reader) (order : List NodeId) : Nat :=
  (List.range r.count).countP (· ∉ order)

theorem closedCount_append_lt {r : Reader} {order : List NodeId} {id : NodeId}
    (hlt : id < r.count) (hnot : id ∉ order) :
    r.closedCount (order ++ [id]) < r.closedCount order := by
  unfold closedCount
  have key : ∀ l : List NodeId, id ∈ l →
      l.countP (· ∉ order ++ [id]) < l.countP (· ∉ order) := by
    intro l
    induction l with
    | nil => simp
    | cons a l ih =>
      intro hmem
      have hle : l.countP (· ∉ order ++ [id]) ≤ l.countP (· ∉ order) := by
        apply List.countP_mono_left
        intro x _ hx
        simp at hx ⊢
        exact hx.1
      rw [List.countP_cons, List.countP_cons]
      by_cases ha : a = id
      · subst ha
        have hnew : decide (a ∉ order ++ [a]) = false := by simp
        have hold : decide (a ∉ order) = true := decide_eq_true hnot
        simp only [hnew, hold]
        exact Nat.lt_succ_of_le hle
      · have hin : id ∈ l := by
          rcases List.mem_cons.1 hmem with h | h
          · exact absurd h.symm ha
          · exact h
        have := ih hin
        have heq : (a ∉ order ++ [id]) ↔ (a ∉ order) := by simp [ha]
        simp only [heq]
        omega
  exact key _ (by simpa using hlt)

/-- Looks at the queue until it is empty. -/
def drain (r : Reader) (difficulty : Difficulty) (order : List NodeId) :
    List NodeId → List NodeId
  | [] => order
  | id :: queue =>
    if _h : id < r.count ∧ id ∉ order then
      if r.holds difficulty (order.contains ·) id then
        drain r difficulty (order ++ [id]) (queue ++ r.dependents id)
      else drain r difficulty order queue
    else drain r difficulty order queue
termination_by queue => (r.closedCount order, queue.length)
decreasing_by
  · exact Prod.Lex.left _ _ (closedCount_append_lt _h.1 _h.2)
  · exact Prod.Lex.right _ (by simp)
  · exact Prod.Lex.right _ (by simp)

/-- Opens the inventory and then everything that follows. -/
def solve (r : Reader) (difficulty : Difficulty) (inventory : Inventory) :
    Except SolveError Reached := do
  let s ← r.markItems {} inventory.items
  return ⟨r.drain difficulty s.order (s.queue ++ List.range r.count)⟩

/-- Whether a node opens. An unknown node is reported before an unknown item. -/
def isReachable (r : Reader) (difficulty : Difficulty) (inventory : Inventory) (name : String) :
    Except SolveError Bool :=
  match r.lookup? name with
  | none => .error (.unknownNode name)
  | some id => return (← r.solve difficulty inventory).contains id

end Reader

end Progression

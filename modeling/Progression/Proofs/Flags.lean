import Mathlib.Data.List.Range
import Progression.Proofs.Search

/-!
A search with flags. It keeps one flag for every id in range, looks up there whether a node is open,
and passes over ids that have no flag. Main statement: this is the search, and in the end the flags
tell what is in the order.
-/

namespace Progression

namespace Reader

/-- A search that has a flag for every id in range, up if the node is open. -/
structure Sweep extends Search where
  flags : List Bool
  deriving Repr, DecidableEq

/-- A flag that is missing is down. -/
def Sweep.contains (s : Sweep) (id : NodeId) : Bool :=
  s.flags[id]?.getD false

variable {r : Reader} {difficulty : Difficulty} {order : List NodeId} {id : NodeId} {s : Sweep}

/-! ### Orders of nodes -/

/-- Distinct nodes in range. -/
structure IsOrder (r : Reader) (order : List NodeId) : Prop where
  nodup : order.Nodup
  lt_count : ∀ id ∈ order, id < r.count

theorem IsOrder.concat (h : r.IsOrder order) (hlt : id < r.count) (hnew : id ∉ order) :
    r.IsOrder (order ++ [id]) where
  nodup := by
    rw [← List.concat_eq_append]
    exact h.nodup.concat hnew
  lt_count := by
    intro p hp
    rcases List.mem_append.1 hp with hold | hid
    · exact h.lt_count p hold
    · exact List.mem_singleton.1 hid ▸ hlt

/-- The nodes of an order are as many as there are ids in range that are among them. -/
theorem IsOrder.length_eq (h : r.IsOrder order) :
    order.length = (List.range r.count).countP (order.contains ·) := by
  rw [List.countP_eq_length_filter]
  apply List.Perm.length_eq
  refine (List.perm_ext_iff_of_nodup h.nodup (List.nodup_range.filter _)).2 fun id => ?_
  rw [List.mem_filter, List.mem_range, List.contains_iff_mem]
  exact ⟨fun hid => ⟨h.lt_count id hid, hid⟩, fun hid => hid.2⟩

/-! ### The search -/

/-- Opens a node whose flag is down. -/
def raise (r : Reader) (s : Sweep) (id : NodeId) : Sweep :=
  if s.flags[id]? = some false then
    ⟨⟨s.order ++ [id], s.queue ++ r.dependents id⟩, s.flags.set id true⟩
  else s

def raiseItems (r : Reader) (s : Sweep) : List String → Except SolveError Sweep
  | [] => .ok s
  | item :: items =>
    match r.lookup? item with
    | none => .error (.unknownItem item)
    | some id => raiseItems r (r.raise s id) items

/-- A flag goes up, or nothing changes. -/
theorem count_raise_lt (r : Reader) (s : Sweep) (id : NodeId) :
    (r.raise s id).flags.count false < s.flags.count false ∨ r.raise s id = s := by
  unfold raise
  split
  case isTrue hdown =>
      left
      obtain ⟨hlt, hget⟩ := List.getElem?_eq_some_iff.1 hdown
      have hpos : 0 < s.flags.count false := List.count_pos_iff.2 (hget ▸ List.getElem_mem hlt)
      rw [List.count_set hlt, hget]
      simp only [beq_self_eq_true, if_true, Bool.true_beq, Bool.false_eq_true, if_false]
      omega
  case isFalse => exact Or.inr rfl

/-- Looks at the queue until it is empty. A node that is out of range may hold, but stays closed. -/
def sweep (r : Reader) (difficulty : Difficulty) (s : Sweep) : Sweep :=
  match _hqueue : s.queue with
  | [] => s
  | id :: queue =>
    let rest : Sweep := { s with queue }
    if s.contains id then sweep r difficulty rest
    else if r.holds difficulty s.contains id then sweep r difficulty (r.raise rest id)
    else sweep r difficulty rest
termination_by (s.flags.count false, s.queue.length)
decreasing_by
  all_goals have hshort : queue.length < s.queue.length := by simp [_hqueue]
  · exact Prod.Lex.right _ hshort
  · rcases r.count_raise_lt { s with queue } id with hlt | heq
    · exact Prod.Lex.left _ _ hlt
    · rw [heq]
      exact Prod.Lex.right _ hshort
  · exact Prod.Lex.right _ hshort

/-- Opens the inventory and then everything that follows, with flags. -/
def search (r : Reader) (difficulty : Difficulty) (inventory : Inventory) :
    Except SolveError Sweep := do
  let s ← r.raiseItems { flags := List.replicate r.count false } inventory.items
  return r.sweep difficulty { s with queue := s.queue ++ List.range r.count }

/-! ### What the flags tell -/

/-- The order is one of distinct nodes in range, and the flags tell what is in it. -/
structure Keeps (r : Reader) (s : Sweep) : Prop extends r.IsOrder s.order where
  flags_eq : s.flags = (List.range r.count).map (s.order.contains ·)

theorem getElem?_map_range (f : Nat → Bool) (n i : Nat) :
    ((List.range n).map f)[i]? = if i < n then some (f i) else none := by
  rw [List.getElem?_map]
  split
  case isTrue hlt => rw [List.getElem?_range hlt, Option.map_some]
  case isFalse hge => rw [List.getElem?_eq_none (by simpa using hge), Option.map_none]

namespace Keeps

theorem getElem?_flags (h : r.Keeps s) (id : NodeId) :
    s.flags[id]? = if id < r.count then some (s.order.contains id) else none := by
  rw [h.flags_eq, getElem?_map_range]

theorem contains_eq (h : r.Keeps s) : s.contains = (s.order.contains ·) := by
  ext id
  rw [Sweep.contains, h.getElem?_flags]
  split
  case isTrue => rfl
  case isFalse hge =>
      have hnot : id ∉ s.order := fun hid => hge (h.lt_count id hid)
      simpa using hnot

theorem contains_iff (h : r.Keeps s) (id : NodeId) : s.contains id = true ↔ id ∈ s.order := by
  rw [h.contains_eq, List.contains_iff_mem]

/-- So many flags are up as nodes are open. -/
theorem length_eq (h : r.Keeps s) : s.order.length = s.flags.count true := by
  rw [h.toIsOrder.length_eq, h.flags_eq, List.count, List.countP_map]
  exact List.countP_congr fun id _ => by simp

theorem isDown_iff (h : r.Keeps s) (id : NodeId) :
    s.flags[id]? = some false ↔ id < r.count ∧ id ∉ s.order := by
  rw [h.getElem?_flags]
  split <;> simp_all

/-- Raising a flag is opening the node. -/
theorem raise (h : r.Keeps s) (id : NodeId) :
    r.Keeps (r.raise s id) ∧ (r.raise s id).toSearch = r.mark s.toSearch id := by
  unfold Reader.raise mark
  rw [if_congr (h.isDown_iff id) rfl rfl]
  split
  case isTrue hnew =>
      refine ⟨⟨h.concat hnew.1 hnew.2, List.ext_getElem? fun p => ?_⟩, rfl⟩
      have hlength : s.flags.length = r.count := by
        rw [h.flags_eq, List.length_map, List.length_range]
      rw [List.getElem?_set, h.getElem?_flags, getElem?_map_range, hlength, if_pos hnew.1]
      by_cases hp : id = p
      · subst hp
        simp [hnew.1]
      · simp [hp, Ne.symm hp]
  case isFalse => exact ⟨h, rfl⟩

end Keeps

/-- In the beginning every flag is down. -/
theorem keeps_start (r : Reader) : r.Keeps { flags := List.replicate r.count false } where
  nodup := List.nodup_nil
  lt_count := List.forall_mem_nil _
  flags_eq := by
    symm
    rw [List.eq_replicate_iff, List.length_map, List.length_range, List.forall_mem_map]
    exact ⟨rfl, fun _ _ => rfl⟩

/-! ### Main statement -/

theorem raiseItems_spec (h : r.Keeps s) (items : List String) :
    (∃ e, r.raiseItems s items = .error e ∧ r.markItems s.toSearch items = .error e) ∨
    ∃ t, r.raiseItems s items = .ok t ∧ r.markItems s.toSearch items = .ok t.toSearch ∧
      r.Keeps t := by
  induction items generalizing s with
  | nil => exact Or.inr ⟨s, rfl, rfl, h⟩
  | cons item items ih =>
      rw [raiseItems, markItems]
      cases r.lookup? item with
      | none => exact Or.inl ⟨_, rfl, rfl⟩
      | some id =>
          obtain ⟨hkeeps, hmark⟩ := h.raise id
          have hrest := ih hkeeps
          rw [hmark] at hrest
          exact hrest

/-- Taking a node from the queue opens it if it holds and can be opened. -/
theorem drain_cons (r : Reader) (difficulty : Difficulty) (order queue : List NodeId)
    (id : NodeId) :
    r.drain difficulty order (id :: queue) =
      if r.holds difficulty (order.contains ·) id then
        r.drain difficulty (r.mark ⟨order, queue⟩ id).order (r.mark ⟨order, queue⟩ id).queue
      else r.drain difficulty order queue := by
  rw [drain, mark]
  split
  case isTrue hnew => rfl
  case isFalse => rw [ite_self]

/-- One look at the queue keeps the flags right, and so does the whole sweep. -/
theorem sweep_spec (difficulty : Difficulty) (h : r.Keeps s) :
    r.Keeps (r.sweep difficulty s) ∧
      (r.sweep difficulty s).order = r.drain difficulty s.order s.queue := by
  fun_induction sweep r difficulty s with
  | case1 s hqueue =>
      rw [hqueue, drain]
      exact ⟨h, rfl⟩
  | case2 s id queue hqueue rest hopen ih =>
      obtain ⟨hkeeps, horder⟩ := ih ⟨h.toIsOrder, h.flags_eq⟩
      refine ⟨hkeeps, horder.trans ?_⟩
      rw [hqueue, drain, dif_neg fun hnew => hnew.2 ((h.contains_iff id).1 hopen)]
  | case3 s id queue hqueue rest hclosed hholds ih =>
      obtain ⟨hrest, hmark⟩ := Keeps.raise (s := rest) ⟨h.toIsOrder, h.flags_eq⟩ id
      obtain ⟨hkeeps, horder⟩ := ih hrest
      refine ⟨hkeeps, horder.trans ?_⟩
      rw [h.contains_eq] at hholds
      rw [hqueue, drain_cons, if_pos hholds, hmark]
  | case4 s id queue hqueue rest hclosed hnot ih =>
      obtain ⟨hkeeps, horder⟩ := ih ⟨h.toIsOrder, h.flags_eq⟩
      refine ⟨hkeeps, horder.trans ?_⟩
      rw [h.contains_eq] at hnot
      rw [hqueue, drain_cons, if_neg hnot]

/-- With flags the search finds what it finds without. -/
theorem search_spec (r : Reader) (difficulty : Difficulty) (inventory : Inventory) :
    (∃ e, r.search difficulty inventory = .error e ∧ r.solve difficulty inventory = .error e) ∨
    ∃ s, r.search difficulty inventory = .ok s ∧ r.solve difficulty inventory = .ok ⟨s.order⟩ ∧
      r.Keeps s := by
  rw [search, solve]
  rcases raiseItems_spec r.keeps_start inventory.items with
    ⟨e, hraise, hmark⟩ | ⟨s, hraise, hmark, hkeeps⟩
  · rw [hraise, hmark]
    exact Or.inl ⟨e, rfl, rfl⟩
  · rw [hraise, hmark]
    obtain ⟨hsweep, horder⟩ := sweep_spec (s := { s with queue := s.queue ++ List.range r.count })
      difficulty ⟨hkeeps.toIsOrder, hkeeps.flags_eq⟩
    refine Or.inr ⟨_, rfl, ?_, hsweep⟩
    rw [horder]
    rfl

end Reader

end Progression

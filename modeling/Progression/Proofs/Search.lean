import Progression.Proofs.Evaluation

/-!
The search for open nodes, over any reader.

Two facts are needed of it. Nothing opens outside a set that has the items and is closed
under the rules; this asks nothing of the reader. And the result is itself closed under the
rules, provided that the reader names, for every node, all nodes that may open once it
does: a closed node whose rule has come true is then still in the queue, and in the end the
queue is empty.

The order of the result is kept too: items first, then every node behind nodes of which its
rule holds. This again asks nothing of the reader.
-/

namespace Progression.Reader

variable {r : Reader} {difficulty : Difficulty}

/-- The reader names every node whose rule may come true when `p` opens. -/
def NamesDependents (r : Reader) (difficulty : Difficulty) : Prop :=
  ∀ (isOpen : NodeId → Bool) (p id : NodeId), p < r.count →
    r.holds difficulty isOpen id = false →
      r.holds difficulty (fun q => q == p || isOpen q) id = true → id ∈ r.dependents p

/-- A set of nodes that has the items. -/
def HasItems (r : Reader) (inventory : Inventory) (isOpen : NodeId → Bool) : Prop :=
  ∀ item ∈ inventory.items, ∀ id, r.lookup? item = some id → id < r.count → isOpen id = true

/-- A set of nodes that has every node whose rule holds on it. -/
def IsClosed (r : Reader) (difficulty : Difficulty) (isOpen : NodeId → Bool) : Prop :=
  ∀ id, id < r.count → r.holds difficulty isOpen id = true → isOpen id = true

/-! ### Draining the queue -/

/-- Every closed node whose rule holds is waiting in the queue. -/
def AllWaiting (r : Reader) (difficulty : Difficulty) (order queue : List NodeId) : Prop :=
  ∀ id, id < r.count → id ∉ order → r.holds difficulty (order.contains ·) id = true → id ∈ queue

theorem contains_concat (order : List NodeId) (p : NodeId) :
    ((order ++ [p]).contains ·) = fun q => q == p || order.contains q := by
  ext q
  rw [List.contains_eq_any_beq, List.any_append, ← List.contains_eq_any_beq, Bool.or_comm]
  simp

/-- Opening the front of the queue keeps every node that matters in it, for the nodes that
the step has made ready are dependents of the node that it opens. -/
theorem allWaiting_open (hdependents : r.NamesDependents difficulty) {order queue : List NodeId}
    {p : NodeId} (hp : p < r.count) (h : r.AllWaiting difficulty order (p :: queue)) :
    r.AllWaiting difficulty (order ++ [p]) (queue ++ r.dependents p) := by
  intro id hlt hnot hopen
  rw [List.mem_append, List.mem_singleton, not_or] at hnot
  rw [contains_concat] at hopen
  rw [List.mem_append]
  -- Either the node was ready before and was waiting, or opening `p` has made it ready.
  cases hbefore : r.holds difficulty (order.contains ·) id with
  | true =>
      left
      exact (List.mem_cons.1 (h id hlt hnot.1 hbefore)).resolve_left hnot.2
  | false => exact Or.inr (hdependents _ p id hp hbefore hopen)

/-- Passing over the front of the queue loses nothing, if it is open, out of range or not
ready. -/
theorem allWaiting_skip {order queue : List NodeId} {p : NodeId}
    (hskip : p < r.count → p ∉ order → r.holds difficulty (order.contains ·) p ≠ true)
    (h : r.AllWaiting difficulty order (p :: queue)) :
    r.AllWaiting difficulty order queue := by
  intro id hlt hnot hopen
  rcases List.mem_cons.1 (h id hlt hnot hopen) with rfl | hmem
  · exact absurd hopen (hskip hlt hnot)
  · exact hmem

theorem drain_isClosed (hdependents : r.NamesDependents difficulty)
    (order queue : List NodeId) (h : r.AllWaiting difficulty order queue) :
    r.IsClosed difficulty ((r.drain difficulty order queue).contains ·) := by
  fun_induction drain r difficulty order queue with
  | case1 order =>
      intro id hlt hopen
      by_contra hnot
      rw [List.contains_iff_mem] at hnot
      exact absurd (h id hlt hnot hopen) List.not_mem_nil
  | case2 order p queue hnew hholds ih => exact ih (allWaiting_open hdependents hnew.1 h)
  | case3 order p queue hnew hholds ih => exact ih (allWaiting_skip (fun _ _ => hholds) h)
  | case4 order p queue hold ih =>
      exact ih (allWaiting_skip (fun hlt hnot => absurd ⟨hlt, hnot⟩ hold) h)

/-- Draining opens nothing outside a closed set. -/
theorem drain_subset {isOpen : NodeId → Bool} (hclosed : r.IsClosed difficulty isOpen)
    (order queue : List NodeId) (h : ∀ id ∈ order, isOpen id = true) :
    ∀ id ∈ r.drain difficulty order queue, isOpen id = true := by
  fun_induction drain r difficulty order queue with
  | case1 order => exact h
  | case2 order p queue hnew hholds ih =>
      apply ih
      intro id hmem
      rcases List.mem_append.1 hmem with hid | hid
      · exact h id hid
      · rw [List.mem_singleton.1 hid]
        refine hclosed p hnew.1 (holds_mono (fun q hq => h q ?_) hholds)
        exact List.contains_iff_mem.1 hq
  | case3 order p queue hnew hholds ih => exact ih h
  | case4 order p queue hold ih => exact ih h

/-- What was open stays open. -/
theorem subset_drain (order queue : List NodeId) :
    ∀ id ∈ order, id ∈ r.drain difficulty order queue := by
  fun_induction drain r difficulty order queue with
  | case1 order => exact fun id hid => hid
  | case2 order p queue hnew hholds ih =>
      exact fun id hid => ih id (List.mem_append_left _ hid)
  | case3 order p queue hnew hholds ih => exact ih
  | case4 order p queue hold ih => exact ih

/-! ### The items -/

@[simp] theorem mem_mark_iff {s : Search} {p id : NodeId} :
    id ∈ (r.mark s p).order ↔ id ∈ s.order ∨ (id = p ∧ p < r.count) := by
  unfold mark
  split
  case isTrue hnew => simp [hnew.1]
  case isFalse hnot =>
      refine ⟨Or.inl, ?_⟩
      rintro (hid | ⟨rfl, hlt⟩)
      · exact hid
      · exact Classical.not_not.1 fun hid => hnot ⟨hlt, hid⟩

/-- If every item is known, exactly their nodes open first. -/
theorem markItems_eq_ok {items : List String} (s : Search)
    (hknown : ∀ item ∈ items, r.lookup? item ≠ none) :
    ∃ t, r.markItems s items = .ok t ∧
      ∀ id, id ∈ t.order ↔
        id ∈ s.order ∨ (id < r.count ∧ ∃ item ∈ items, r.lookup? item = some id) := by
  induction items generalizing s with
  | nil => exact ⟨s, rfl, by simp⟩
  | cons item items ih =>
      obtain ⟨p, hp⟩ := Option.ne_none_iff_exists'.1 (hknown item List.mem_cons_self)
      obtain ⟨t, ht, horder⟩ :=
        ih (r.mark s p) fun i hi => hknown i (List.mem_cons_of_mem _ hi)
      refine ⟨t, by rw [markItems, hp]; exact ht, fun id => ?_⟩
      rw [horder, mem_mark_iff, or_assoc]
      refine or_congr_right ?_
      simp only [List.mem_cons, exists_eq_or_imp, hp, Option.some.injEq]
      constructor
      · rintro (⟨rfl, hlt⟩ | ⟨hlt, hrest⟩)
        · exact ⟨hlt, Or.inl rfl⟩
        · exact ⟨hlt, Or.inr hrest⟩
      · rintro ⟨hlt, rfl | hrest⟩
        · exact Or.inl ⟨rfl, hlt⟩
        · exact Or.inr ⟨hlt, hrest⟩

/-! ### The whole search -/

/-- If every item is known, the search ends in the least set that has the items and is
closed under the rules. -/
theorem solve_eq_ok (hdependents : r.NamesDependents difficulty) {inventory : Inventory}
    (hknown : ∀ item ∈ inventory.items, r.lookup? item ≠ none) :
    ∃ reached, r.solve difficulty inventory = .ok reached ∧
      r.HasItems inventory reached.contains ∧
      r.IsClosed difficulty reached.contains ∧
      ∀ isOpen, r.HasItems inventory isOpen → r.IsClosed difficulty isOpen →
        ∀ id, reached.contains id = true → isOpen id = true := by
  obtain ⟨s, hs, horder⟩ := markItems_eq_ok {} hknown
  have hitems : ∀ id, id ∈ s.order ↔
      id < r.count ∧ ∃ item ∈ inventory.items, r.lookup? item = some id := by
    simpa using horder
  refine ⟨⟨r.drain difficulty s.order (s.queue ++ List.range r.count)⟩, ?_, ?_, ?_, ?_⟩
  · rw [solve, hs]
    rfl
  · intro item hitem id hid hlt
    exact List.contains_iff_mem.2
      (subset_drain _ _ id ((hitems id).2 ⟨hlt, item, hitem, hid⟩))
  · refine drain_isClosed hdependents _ _ fun id hlt _ _ => ?_
    exact List.mem_append_right _ (List.mem_range.2 hlt)
  · intro isOpen hhas hclosed id hid
    refine drain_subset hclosed _ _ (fun p hp => ?_) id (List.contains_iff_mem.1 hid)
    obtain ⟨hlt, item, hitem, hlookup⟩ := (hitems p).1 hp
    exact hhas item hitem p hlookup hlt

theorem lookup?_ne_none_of_markItems {items : List String} {s t : Search}
    (h : r.markItems s items = .ok t) : ∀ item ∈ items, r.lookup? item ≠ none := by
  induction items generalizing s with
  | nil => exact fun item hitem => absurd hitem List.not_mem_nil
  | cons item items ih =>
      intro other hother hnone
      rw [markItems] at h
      split at h
      case h_1 => contradiction
      case h_2 id hid =>
          rcases List.mem_cons.1 hother with rfl | hmem
          · rw [hid] at hnone
            contradiction
          · exact ih h other hmem hnone

/-- The first unknown item is reported. -/
theorem solve_eq_error {inventory : Inventory} {item : String}
    (h : inventory.items.find? (fun i => (r.lookup? i).isNone) = some item) :
    r.solve difficulty inventory = .error (.unknownItem item) := by
  have hmark : ∀ (items : List String) (s : Search),
      items.find? (fun i => (r.lookup? i).isNone) = some item →
        r.markItems s items = .error (.unknownItem item) := by
    intro items
    induction items with
    | nil => exact fun s hfind => by contradiction
    | cons i items ih =>
        intro s hfind
        rw [markItems]
        cases hlookup : r.lookup? i with
        | none =>
            rw [List.find?_cons, hlookup] at hfind
            obtain rfl := Option.some.inj hfind
            rfl
        | some id =>
            rw [List.find?_cons, hlookup] at hfind
            exact ih _ hfind
  rw [solve, hmark inventory.items {} h]
  rfl

/-- The search fails on unknown items. -/
theorem lookup?_ne_none_of_solve {inventory : Inventory} {reached : Reached}
    (h : r.solve difficulty inventory = .ok reached) :
    ∀ item ∈ inventory.items, r.lookup? item ≠ none := by
  rw [solve] at h
  cases hmark : r.markItems {} inventory.items with
  | error e =>
      rw [hmark] at h
      contradiction
  | ok s => exact lookup?_ne_none_of_markItems hmark

/-- In the end, a node is open exactly if an item or its rule opens it. -/
theorem contains_iff_of_solve (hdependents : r.NamesDependents difficulty)
    {inventory : Inventory} {reached : Reached}
    (h : r.solve difficulty inventory = .ok reached) {id : NodeId} (hid : id < r.count) :
    reached.contains id = true ↔ (∃ item ∈ inventory.items, r.lookup? item = some id) ∨
      r.holds difficulty reached.contains id = true := by
  obtain ⟨reached', hsolve, hitems, hclosed, hleast⟩ :=
    solve_eq_ok hdependents (lookup?_ne_none_of_solve h)
  obtain rfl := Except.ok.inj (h.symm.trans hsolve)
  constructor
  · intro hopen
    by_contra hnot
    rw [not_or] at hnot
    -- Without the node the set would be smaller and still closed.
    have hwithout : (reached.contains id && id != id) = true := by
      apply hleast (fun p => reached.contains p && p != id) ?_ ?_ id hopen
      · intro item hitem p hp hlt
        have hne : p ≠ id := fun heq => hnot.1 ⟨item, hitem, heq ▸ hp⟩
        exact Bool.and_eq_true_iff.2 ⟨hitems item hitem p hp hlt, bne_iff_ne.2 hne⟩
      · intro p hlt hholds
        have hmore : r.holds difficulty reached.contains p = true :=
          holds_mono (fun q hq => (Bool.and_eq_true_iff.1 hq).1) hholds
        have hne : p ≠ id := fun heq => hnot.2 (heq ▸ hmore)
        exact Bool.and_eq_true_iff.2 ⟨hclosed p hlt hmore, bne_iff_ne.2 hne⟩
    simp at hwithout
  · rintro (⟨item, hitem, hlookup⟩ | hholds)
    · exact hitems item hitem id hlookup hid
    · exact hclosed id hid hholds

theorem isReachable_eq_true_iff {inventory : Inventory} {name : String} :
    r.isReachable difficulty inventory name = .ok true ↔
      ∃ reached, r.solve difficulty inventory = .ok reached ∧
        reached.containsName r name = true := by
  rw [isReachable]
  cases hlookup : r.lookup? name with
  | none => simp [Reached.containsName, hlookup]
  | some id =>
      cases hsolve : r.solve difficulty inventory with
      | error e => simp [bind, Except.bind]
      | ok reached => simp [Reached.containsName, hlookup, bind, Except.bind, pure, Except.pure]

/-! ### The order of discovery -/

/-- Nodes that open one after another once `order` is open: each is in range and closed so
far, and its rule holds of the nodes before it. -/
inductive OpensAfter (r : Reader) (difficulty : Difficulty) : List NodeId → List NodeId → Prop
  | nil (order : List NodeId) : OpensAfter r difficulty order []
  | cons {order opened : List NodeId} {id : NodeId} : id < r.count → id ∉ order →
      r.holds difficulty (order.contains ·) id = true →
      OpensAfter r difficulty (order ++ [id]) opened → OpensAfter r difficulty order (id :: opened)

/-- What is said of the first node is true of every node. -/
theorem OpensAfter.of_append {order before after : List NodeId} {id : NodeId}
    (h : r.OpensAfter difficulty order (before ++ id :: after)) :
    id < r.count ∧ id ∉ order ++ before ∧
      r.holds difficulty ((order ++ before).contains ·) id = true := by
  induction before generalizing order with
  | nil =>
      cases h with
      | cons hlt hnew hholds _ =>
          rw [List.append_nil]
          exact ⟨hlt, hnew, hholds⟩
  | cons p before ih =>
      cases h with
      | cons _ _ _ hrest =>
          rw [List.append_cons]
          exact ih hrest

/-- Draining adds nodes behind those that were open. -/
theorem exists_drain_eq (r : Reader) (difficulty : Difficulty) (order queue : List NodeId) :
    ∃ opened, r.drain difficulty order queue = order ++ opened ∧
      r.OpensAfter difficulty order opened := by
  fun_induction drain r difficulty order queue with
  | case1 order => exact ⟨[], by simp, .nil order⟩
  | case2 order id queue hnew hholds ih =>
      obtain ⟨opened, heq, hopened⟩ := ih
      exact ⟨id :: opened, by simp [heq], .cons hnew.1 hnew.2 hholds hopened⟩
  | case3 order id queue hnew hholds ih => exact ih
  | case4 order id queue hold ih => exact ih

/-- The search opens the nodes of items first, and then node after node by their rules. -/
theorem exists_order_of_solve {inventory : Inventory} {reached : Reached}
    (h : r.solve difficulty inventory = .ok reached) :
    ∃ start opened, reached.order = start ++ opened ∧
      (∀ id, id ∈ start ↔ id < r.count ∧ ∃ item ∈ inventory.items, r.lookup? item = some id) ∧
      r.OpensAfter difficulty start opened := by
  obtain ⟨s, hs, hstart⟩ := markItems_eq_ok {} (lookup?_ne_none_of_solve h)
  obtain ⟨opened, hdrain, hopened⟩ :=
    exists_drain_eq r difficulty s.order (s.queue ++ List.range r.count)
  rw [solve, hs] at h
  obtain rfl := Except.ok.inj h
  exact ⟨s.order, opened, hdrain, by simpa using hstart, hopened⟩

/-- A node that no item opens is opened by its rule, which holds of the nodes before it. -/
theorem holds_of_solve {inventory : Inventory} {reached : Reached}
    (h : r.solve difficulty inventory = .ok reached) {before after : List NodeId} {id : NodeId}
    (horder : reached.order = before ++ id :: after)
    (hitem : ∀ item ∈ inventory.items, r.lookup? item ≠ some id) :
    id ∉ before ∧ r.holds difficulty (before.contains ·) id = true := by
  obtain ⟨start, opened, heq, hstart, hopened⟩ := exists_order_of_solve h
  have hnot : id ∉ start := by
    rw [hstart]
    rintro ⟨-, item, hmem, hlookup⟩
    exact hitem item hmem hlookup
  -- So the place of the node is behind those of the items.
  rcases List.append_eq_append_iff.1 (horder.symm.trans heq) with
    ⟨mid, rfl, hmid⟩ | ⟨mid, rfl, rfl⟩
  · cases mid with
    | nil =>
        obtain rfl : opened = id :: after := hmid.symm
        rw [List.append_nil] at hnot
        cases hopened with
        | cons _ _ hholds _ =>
            rw [List.append_nil] at hholds
            exact ⟨hnot, hholds⟩
    | cons p mid =>
        obtain ⟨rfl, -⟩ := List.cons.inj hmid
        exact absurd (List.mem_append_right before List.mem_cons_self) hnot
  · exact hopened.of_append.2

end Progression.Reader

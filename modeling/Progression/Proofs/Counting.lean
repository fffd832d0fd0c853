import Progression.Proofs.Solving

/-!
What a count gate counts. Placements of the resource that are parents too are counted once.
Parents are counted as often as the resource names them, so that a gate may open with fewer
producers than it asks for.
-/

namespace Progression

/-! ### Distinct producers -/

/-- Elements of two lists, counted once each. Only the first list is searched for
repetitions if the second one has none. -/
theorem countP_dedup_append {α : Type} [DecidableEq α] (f : α → Bool) (l : List α)
    {l' : List α} (h : l'.Nodup) :
    (l ++ l').dedup.countP f = l.dedup.countP f + (l'.filter (!l.contains ·)).countP f := by
  have hperm : (l ++ l').dedup.Perm (l.dedup ++ l'.filter (!l.contains ·)) := by
    refine (List.perm_ext_iff_of_nodup (List.nodup_dedup _) ?_).2 fun a => ?_
    · refine List.nodup_append.2 ⟨List.nodup_dedup l, h.filter _, ?_⟩
      rintro a ha b hb rfl
      simp [List.mem_dedup.1 ha] at hb
    · simp only [List.mem_dedup, List.mem_append, List.mem_filter]
      by_cases ha : a ∈ l <;> simp [ha]
  rw [hperm.countP_eq, List.countP_append]

namespace Graph

variable {g : Graph} {isOpen : NodeId → Bool} {resource : NodeId}

/-- How many producers of a resource are open, if each counts once. -/
def openProducers (g : Graph) (isOpen : NodeId → Bool) (resource : NodeId) : Nat :=
  (g.parents resource ++ g.placements resource).dedup.countP isOpen

/-- How often a resource names an open parent that it has named before. -/
def openRepeats (g : Graph) (isOpen : NodeId → Bool) (resource : NodeId) : Nat :=
  (g.parents resource).countP isOpen - (g.parents resource).dedup.countP isOpen

/-- A resource that names no parent twice is counted as its producers are. -/
theorem openRepeats_eq_zero (h : (g.parents resource).Nodup) :
    g.openRepeats isOpen resource = 0 := by
  rw [openRepeats, h.dedup, Nat.sub_self]

/-- The evaluator counts open producers, and repeated parents once more each time. -/
theorem countP_producers (hplaced : (g.placements resource).Nodup) (rest : List NodeId) :
    (g.reader.producers (resource :: rest)).countP isOpen =
      g.openProducers isOpen resource + g.openRepeats isOpen resource := by
  have hle : (g.parents resource).dedup.countP isOpen ≤ (g.parents resource).countP isOpen :=
    (List.dedup_sublist _).countP_le
  show (g.parents resource ++
    (g.placements resource).filter (!(g.parents resource).contains ·)).countP isOpen = _
  rw [openProducers, openRepeats, countP_dedup_append isOpen _ hplaced, List.countP_append]
  omega

/-- Without placements that are open, a count gate opens by what it counts. -/
theorem holds_count {difficulty : Difficulty} {id : NodeId} {min : UInt32}
    {rest : List NodeId} (hkind : g.kind? id = some (.count min))
    (hparents : g.parents id = resource :: rest)
    (hclosed : ∀ p ∈ g.placements id, isOpen p = false) (hplaced : (g.placements resource).Nodup) :
    g.reader.holds difficulty isOpen id = true ↔
      min.toNat ≤ g.openProducers isOpen resource + g.openRepeats isOpen resource := by
  have hnone : (g.placements id).any isOpen = false :=
    List.any_eq_false.2 fun p hp => Bool.not_eq_true _ ▸ hclosed p hp
  have hkind' : g.reader.kind? id = some (.count min) := hkind
  have hparents' : g.reader.parents id = resource :: rest := hparents
  have hnone' : (g.reader.placements id).any isOpen = false := hnone
  rw [Reader.holds_eq, hkind', hparents', Option.any_some, Kind.opensPlaced, hnone', Kind.opens,
    countP_producers hplaced]
  simp [Kind.isHard, Kind.combinator]

end Graph

/-! ### In the end -/

namespace Compiled.Built

variable {k : Compiled} {g : Graph} {journal : Journal}

theorem nodup_placements (h : k.Built) (hfreeze : (k.freeze.run journal).1 = .ok g)
    (id : NodeId) : (g.placements id).Nodup := by
  have hg := h.numbers hfreeze
  by_cases hid : id < g.size
  · obtain ⟨node, hnode⟩ := hg.defined id hid
    rw [hg.placements_eq hnode]
    exact h.wellFormed.placements_nodup id node hnode
  · have hnone : g.node? id = none := List.getElem?_eq_none (Nat.le_of_not_lt hid)
    rw [Graph.placements, hnone]
    exact List.nodup_nil

/-- A count gate that nothing else opens is open exactly if its resource names, with
repetitions, enough open producers. Distinct producers decide it exactly if repetitions do
not make up for producers that are missing. -/
theorem count_contains_iff (h : k.Built) (hfreeze : (k.freeze.run journal).1 = .ok g)
    {difficulty : Difficulty} {inventory : Inventory} {reached : Reached}
    (hsolve : g.reader.solve difficulty inventory = .ok reached) {id resource : NodeId}
    {min : UInt32} {rest : List NodeId} (hkind : g.kind? id = some (.count min))
    (hparents : g.parents id = resource :: rest)
    (hitems : ∀ item ∈ inventory.items, g.lookup? item ≠ some id)
    (hplaced : ∀ p ∈ g.placements id, reached.contains p = false) :
    (reached.contains id = true ↔
      min.toNat ≤ g.openProducers reached.contains resource +
        g.openRepeats reached.contains resource) ∧
    ((reached.contains id = true ↔ min.toNat ≤ g.openProducers reached.contains resource) ↔
      ¬ (g.openProducers reached.contains resource < min.toNat ∧
        min.toNat ≤ g.openProducers reached.contains resource +
          g.openRepeats reached.contains resource)) := by
  have hid : id < g.reader.count := Graph.lt_of_kind? hkind
  have hnames := g.reader_namesDependents difficulty (h.numbers hfreeze).dependents_eq
  have hcount : reached.contains id = true ↔
      min.toNat ≤ g.openProducers reached.contains resource +
        g.openRepeats reached.contains resource := by
    rw [Reader.contains_iff_of_solve hnames hsolve hid,
      Graph.holds_count hkind hparents hplaced (h.nodup_placements hfreeze resource)]
    -- No item opens the gate, so its rule has to.
    refine or_iff_right ?_
    rintro ⟨item, hitem, hlookup⟩
    exact hitems item hitem hlookup
  refine ⟨hcount, ?_⟩
  rw [hcount]
  omega

end Compiled.Built

theorem solve_doorGraph : doorGraph.reader.solve .normal {} = .ok ⟨[0, 1, 2, 3]⟩ := by cbv

theorem count_contains_iff_door :
    ∃ k, (doorCompiler.compile.run {}).1 = .ok k ∧ (k.freeze.run {}).1 = .ok doorGraph ∧
      ∃ reached, doorGraph.reader.solve .normal {} = .ok reached ∧
        doorGraph.kind? 1 = some (.count 2) ∧ doorGraph.parents 1 = [2] ∧
        (reached.contains 1 = true ↔
          2 ≤ doorGraph.openProducers reached.contains 2 +
            doorGraph.openRepeats reached.contains 2) := by
  obtain ⟨k, hcompile, hfreeze⟩ := exists_doorGraph
  have hkind : doorGraph.kind? 1 = some (.count 2) := by decide
  have hparents : doorGraph.parents 1 = [2] := by decide
  have hitems : ∀ item ∈ Inventory.items {}, doorGraph.lookup? item ≠ some 1 := by decide
  have hplaced : ∀ p ∈ doorGraph.placements 1, Reached.contains ⟨[0, 1, 2, 3]⟩ p = false := by
    decide
  have hcount := Compiled.Built.count_contains_iff (.compile {} hcompile) hfreeze solve_doorGraph
    hkind hparents hitems hplaced
  exact ⟨k, hcompile, hfreeze, ⟨[0, 1, 2, 3]⟩, solve_doorGraph, hkind, hparents, hcount.1⟩

/-- The door opens, though only one node produces its key. -/
theorem door_opens_by_repetition :
    ∃ k, (doorCompiler.compile.run {}).1 = .ok k ∧ (k.freeze.run {}).1 = .ok doorGraph ∧
      ∃ reached, doorGraph.reader.solve .normal {} = .ok reached ∧
        doorGraph.kind? 1 = some (.count 2) ∧ doorGraph.parents 1 = [2] ∧
        doorGraph.placements 1 = [] ∧
        ¬ (reached.contains 1 = true ↔ 2 ≤ doorGraph.openProducers reached.contains 2) := by
  obtain ⟨k, hcompile, hfreeze⟩ := exists_doorGraph
  exact ⟨k, hcompile, hfreeze, ⟨[0, 1, 2, 3]⟩, solve_doorGraph, by decide, by decide,
    by decide, by decide⟩

end Progression

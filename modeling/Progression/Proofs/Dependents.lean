import Progression.Proofs.Search

/-!
The dependents that a graph lists. They are computed backwards from what each node reads,
two steps deep for a count gate, and they suffice for the search: a node whose rule comes
true when another node opens reads that other node.
-/

namespace Progression

namespace Wiring

theorem mem_dependents_iff {wirings : List Wiring} {p id : NodeId} :
    id ∈ (dependents wirings).getD p [] ↔
      p < wirings.length ∧ ∃ w, wirings[id]? = some w ∧ p ∈ reads wirings w := by
  rw [dependents, List.getD_eq_getElem?_getD, List.getElem?_map]
  by_cases hp : p < wirings.length
  · rw [List.getElem?_range hp]
    simp only [Option.map_some, Option.getD_some, List.mem_filterMap, hp, true_and]
    constructor
    · rintro ⟨⟨ids, d⟩, hmem, hif⟩
      rw [List.mem_zipIdx_iff_getElem?, List.getElem?_map] at hmem
      obtain ⟨w, hw, rfl⟩ := Option.map_eq_some_iff.1 hmem
      rw [Std.TreeSet.contains_ofList] at hif
      split at hif
      case isTrue hreads =>
          obtain rfl := Option.some.inj hif
          exact ⟨w, hw, List.contains_iff_mem.1 hreads⟩
      case isFalse => contradiction
    · rintro ⟨w, hw, hreads⟩
      refine ⟨(.ofList (reads wirings w), id), ?_, ?_⟩
      · rw [List.mem_zipIdx_iff_getElem?, List.getElem?_map, hw]
        rfl
      · rw [Std.TreeSet.contains_ofList, List.contains_iff_mem.2 hreads, if_pos rfl]
  · rw [List.getElem?_eq_none (by simpa using hp)]
    simp [hp]

theorem parents_subset_reads {wirings : List Wiring} {w : Wiring} {p : NodeId}
    (h : p ∈ w.parents) : p ∈ reads wirings w :=
  List.mem_append_left _ (List.mem_append_left _ h)

theorem placements_subset_reads {wirings : List Wiring} {w : Wiring} {p : NodeId}
    (h : p ∈ w.placements) : p ∈ reads wirings w :=
  List.mem_append_left _ (List.mem_append_right _ h)

end Wiring

namespace Graph

variable {g : Graph} {id : NodeId} {node : GraphNode}

theorem parents_eq (h : g.node? id = some node) : g.parents id = node.wiring.parents := by
  rw [parents, h]
  rfl

theorem placements_eq (h : g.node? id = some node) :
    g.placements id = node.wiring.placements := by
  rw [placements, h]
  rfl

theorem kind?_eq (h : g.node? id = some node) : g.kind? id = some node.wiring.kind := by
  rw [kind?, h]
  rfl

theorem lt_of_kind? {kind : Kind} (h : g.kind? id = some kind) : id < g.size := by
  by_contra hnot
  have hnone : g.node? id = none := List.getElem?_eq_none (Nat.le_of_not_lt hnot)
  rw [kind?, hnone] at h
  contradiction

/-- What a node has as parents or placements is what its wiring has as sources. -/
theorem mem_sourcesAt {p : NodeId} (h : p ∈ g.parents id ∨ p ∈ g.placements id) :
    p ∈ Wiring.sourcesAt (g.nodes.map GraphNode.wiring) id := by
  rw [Wiring.sourcesAt, List.getElem?_map]
  cases hnode : g.node? id with
  | none =>
      rw [parents, placements, hnode] at h
      simp at h
  | some node =>
      rw [parents_eq hnode, placements_eq hnode] at h
      rw [node?] at hnode
      rw [hnode]
      exact List.mem_append.2 h

/-- A count gate reads every producer of its first parent. -/
theorem producers_subset_reads (h : g.node? id = some node)
    (hcount : node.wiring.kind.isCount = true) {p : NodeId}
    (hp : p ∈ g.reader.producers (g.parents id)) :
    p ∈ Wiring.reads (g.nodes.map GraphNode.wiring) node.wiring := by
  rw [parents_eq h] at hp
  cases hparents : node.wiring.parents with
  | nil =>
      rw [hparents, Reader.producers] at hp
      exact absurd hp List.not_mem_nil
  | cons resource rest =>
      rw [hparents, Reader.producers, List.mem_append] at hp
      have hsource : resource ∈ node.wiring.sources := by
        rw [Wiring.sources, hparents]
        exact List.mem_append_left _ List.mem_cons_self
      rw [Wiring.reads, if_pos hcount, List.mem_append, List.mem_flatMap]
      refine Or.inr ⟨resource, hsource, mem_sourcesAt ?_⟩
      exact hp.imp_right List.mem_of_mem_filter

/-- A node's rule does not tell sets apart that agree on what the node reads. -/
theorem holds_eq_of_agree {difficulty : Difficulty} {isOpen isOpen' : NodeId → Bool}
    (hnode : g.node? id = some node)
    (hagree : ∀ q ∈ Wiring.reads (g.nodes.map GraphNode.wiring) node.wiring,
      isOpen q = isOpen' q) :
    g.reader.holds difficulty isOpen id = g.reader.holds difficulty isOpen' id := by
  apply Reader.holds_congr
  · intro q hq
    exact hagree q (Wiring.parents_subset_reads (parents_eq hnode ▸ hq))
  · intro hcount q hq
    have hkind : g.reader.kind? id = some node.wiring.kind := kind?_eq hnode
    rw [hkind] at hcount
    exact hagree q (producers_subset_reads hnode hcount hq)
  · intro q hq
    exact hagree q (Wiring.placements_subset_reads (placements_eq hnode ▸ hq))

theorem holds_of_node?_eq_none {difficulty : Difficulty} {isOpen : NodeId → Bool}
    (hnode : g.node? id = none) : g.reader.holds difficulty isOpen id = false := by
  have hkind : g.reader.kind? id = none := by
    show (g.node? id).map _ = none
    rw [hnode]
    rfl
  rw [Reader.holds_eq, hkind]
  rfl

/-- Opening a node changes the answer of no node but those that read it. -/
theorem exists_reads_of_holds_ne {difficulty : Difficulty} {isOpen : NodeId → Bool} {p : NodeId}
    (hne : g.reader.holds difficulty (fun q => q == p || isOpen q) id ≠
      g.reader.holds difficulty isOpen id) :
    ∃ node, g.node? id = some node ∧
      p ∈ Wiring.reads (g.nodes.map GraphNode.wiring) node.wiring := by
  cases hnode : g.node? id with
  | none =>
      rw [holds_of_node?_eq_none hnode, holds_of_node?_eq_none hnode] at hne
      contradiction
  | some node =>
      refine ⟨node, rfl, by_contra fun hnot => hne (holds_eq_of_agree hnode fun q hq => ?_)⟩
      have hq' : (q == p) = false := beq_false_of_ne fun heq => hnot (heq ▸ hq)
      rw [hq', Bool.false_or]

theorem mem_dependentsOf_iff (h : g.dependents = Wiring.dependents (g.nodes.map GraphNode.wiring))
    {p : NodeId} : id ∈ g.dependentsOf p ↔ p < g.size ∧ ∃ node, g.node? id = some node ∧
      p ∈ Wiring.reads (g.nodes.map GraphNode.wiring) node.wiring := by
  rw [dependentsOf, h, Wiring.mem_dependents_iff, List.length_map, List.getElem?_map]
  refine and_congr_right' ⟨?_, ?_⟩
  · rintro ⟨w, hw, hread⟩
    obtain ⟨node, hnode, rfl⟩ := Option.map_eq_some_iff.1 hw
    exact ⟨node, hnode, hread⟩
  · rintro ⟨node, hnode, hread⟩
    rw [node?] at hnode
    exact ⟨node.wiring, by rw [hnode]; rfl, hread⟩

/-- A graph lists every node that may open when another one does. -/
theorem reader_namesDependents (difficulty : Difficulty)
    (h : g.dependents = Wiring.dependents (g.nodes.map GraphNode.wiring)) :
    g.reader.NamesDependents difficulty := by
  intro isOpen p id hp hclosed hopen
  have hne : g.reader.holds difficulty (fun q => q == p || isOpen q) id ≠
      g.reader.holds difficulty isOpen id := by
    rw [hclosed, hopen]
    decide
  exact (mem_dependentsOf_iff h).2 ⟨hp, exists_reads_of_holds_ne hne⟩

end Graph

end Progression

import Progression.Proofs.Linking
import Progression.Proofs.Resolving

/-!
Freezing. A table in which every name without a node is mentioned by some node freezes only
if all its names have nodes. Symbols then are node ids: the graph has, for every symbol, the
node of that symbol.
-/

namespace Progression

namespace FlatTable

variable {table : FlatTable}

theorem freeze_eq_ok_iff {g : Graph} :
    table.freeze = .ok g ↔ table.unresolved = [] ∧
      g.nodes = table.defined.map (fun (s, node) =>
        ⟨table.name s, ⟨node.kind, node.parents, node.placements⟩, node.source,
          node.placeable⟩) ∧
      g.dependents = Wiring.dependents (g.nodes.map GraphNode.wiring) := by
  simp only [freeze, List.isEmpty_iff]
  by_cases hnil : table.unresolved = []
  · rw [if_pos hnil, Except.ok.injEq]
    constructor
    · rintro rfl
      exact ⟨hnil, rfl, rfl⟩
    · rintro ⟨-, hnodes, hdependents⟩
      obtain ⟨nodes, dependents⟩ := g
      dsimp only at hnodes hdependents
      rw [hdependents, hnodes]
  · rw [if_neg hnil]
    exact ⟨fun h => by contradiction, fun h => absurd h.1 hnil⟩

theorem freeze_eq_error_iff {e : FreezeError} :
    table.freeze = .error e ↔ table.unresolved ≠ [] ∧ e = ⟨table.unresolved⟩ := by
  simp only [freeze, List.isEmpty_iff]
  by_cases hnil : table.unresolved = []
  · simp [hnil]
  · simp [hnil, eq_comm]

theorem exists_freeze_of_resolved (h : table.unresolved = []) : ∃ g, table.freeze = .ok g := by
  rw [freeze, h]
  exact ⟨_, rfl⟩

/-! ### Symbols become ids -/

/-- A symbol without a node is mentioned by some node. -/
theorem Covered.exists_mention (hcovered : table.Covered []) (h : table.WellFormed) {s : Symbol}
    (hs : s < table.symbols.size) (hnone : table.node? s = none) :
    ∃ t node, table.node? t = some node ∧ s ∈ node.sources := by
  have hnamed : table.named? (table.name s) = none := by
    rw [h.named?_name hs, hnone]
    rfl
  rcases hcovered _ (SymbolTable.name_mem hs) hnamed with hpending | ⟨other, node, hnode, hmem⟩
  · contradiction
  · obtain ⟨t, n, hn, -, rfl⟩ := h.named?_eq_some_iff.1 hnode
    refine ⟨t, n, hn, ?_⟩
    rw [← h.name_mem_map_iff (h.sources_lt t n hn) hs, FlatNode.sources, List.map_append]
    exact hmem

/-- If no mention is left open, every symbol has a node. -/
theorem exists_node_of_resolved (h : table.WellFormed) (hcovered : table.Covered [])
    (hresolved : table.unresolved = []) {s : Symbol} (hs : s < table.symbols.size) :
    ∃ node, table.node? s = some node := by
  by_contra hnot
  have hnone : table.node? s = none := Option.eq_none_iff_forall_ne_some.2 (not_exists.1 hnot)
  -- The symbol is mentioned by a node, and what nodes mention is resolved.
  obtain ⟨t, n, hn, hsource⟩ := hcovered.exists_mention h hs hnone
  exact unresolved_eq_nil_iff.1 hresolved _ ⟨t, n, s, hn, hsource, hnone, rfl⟩

/-- Numbering the present members of a list loses nothing if all are present. -/
theorem getElem?_numbered {α : Type} (l : List (Option α)) (hall : ∀ x ∈ l, x ≠ none)
    (k i : Nat) :
    ((l.zipIdx k).filterMap fun (x, j) => x.map (j, ·))[i]? =
      (l[i]?).join.map (k + i, ·) := by
  induction l generalizing k i with
  | nil => rfl
  | cons x l ih =>
      obtain ⟨a, rfl⟩ := Option.ne_none_iff_exists'.1 (hall x List.mem_cons_self)
      have hrest := ih fun y hy => hall y (List.mem_cons_of_mem _ hy)
      rw [List.zipIdx_cons, List.filterMap_cons]
      cases i with
      | zero => rfl
      | succ i =>
          show (((l.zipIdx (k + 1)).filterMap _)[i]?) = _
          rw [hrest, List.getElem?_cons_succ, Nat.add_right_comm, Nat.add_assoc]

theorem getElem?_defined (h : table.WellFormed)
    (hall : ∀ s, s < table.symbols.size → ∃ node, table.node? s = some node) (s : Symbol) :
    table.defined[s]? = (table.node? s).map (s, ·) := by
  have hnumbered := getElem?_numbered table.nodes.toList ?_ 0 s
  · rw [defined, hnumbered, Array.getElem?_toList, Nat.zero_add]
    rfl
  · intro x hx hnone
    obtain ⟨s, hlt, rfl⟩ := List.getElem_of_mem hx
    rw [Array.length_toList, h.nodes_size] at hlt
    obtain ⟨node, hnode⟩ := hall s hlt
    rw [node?, Array.getElem?_eq_getElem (by rwa [h.nodes_size])] at hnode
    rw [Array.getElem_toList] at hnone
    rw [hnone] at hnode
    contradiction

end FlatTable

/-- The graph has a node for every symbol of the table, with the symbol as its id. -/
structure Graph.Numbers (g : Graph) (table : FlatTable) : Prop where
  size_eq : g.size = table.symbols.size
  node?_eq : ∀ id node, table.node? id = some node →
    g.node? id = some ⟨table.name id, ⟨node.kind, node.parents, node.placements⟩, node.source,
      node.placeable⟩
  defined : ∀ id, id < g.size → ∃ node, table.node? id = some node
  dependents_eq : g.dependents = Wiring.dependents (g.nodes.map GraphNode.wiring)

theorem FlatTable.numbers_of_freeze {table : FlatTable} {g : Graph} (h : table.WellFormed)
    (hcovered : table.Covered []) (hfreeze : table.freeze = .ok g) : g.Numbers table := by
  obtain ⟨hresolved, hnodes, hdependents⟩ := freeze_eq_ok_iff.1 hfreeze
  have hall : ∀ s, s < table.symbols.size → ∃ node, table.node? s = some node :=
    fun s hs => exists_node_of_resolved h hcovered hresolved hs
  have hget := getElem?_defined h hall
  have hsize : g.size = table.symbols.size := by
    rw [Graph.size, hnodes, List.length_map]
    -- If one side were longer, its next entry would have no partner on the other.
    apply Nat.le_antisymm
    · by_contra hmore
      have hlast := hget table.symbols.size
      rw [List.getElem?_eq_getElem (by omega)] at hlast
      obtain ⟨node, hnode, -⟩ := Option.map_eq_some_iff.1 hlast.symm
      exact absurd (h.lt_of_node? hnode) (Nat.lt_irrefl _)
    · by_contra hless
      obtain ⟨node, hnode⟩ := hall table.defined.length (by omega)
      have hnext := hget table.defined.length
      rw [List.getElem?_eq_none (Nat.le_refl _), hnode] at hnext
      contradiction
  refine ⟨hsize, ?_, ?_, hdependents⟩
  · intro id node hnode
    rw [Graph.node?, hnodes, List.getElem?_map, hget, hnode]
    rfl
  · intro id hid
    exact hall id (hsize ▸ hid)

namespace Graph.Numbers

variable {g : Graph} {table : FlatTable}

theorem name_eq (hg : g.Numbers table) {id : NodeId} (hid : id < g.size) :
    g.name id = table.name id := by
  obtain ⟨node, hnode⟩ := hg.defined id hid
  rw [Graph.name, hg.node?_eq id node hnode]
  rfl

/-- Names are found at their symbols. -/
theorem lookup?_eq (hg : g.Numbers table) (h : table.WellFormed) (name : String) :
    g.lookup? name = table.symbol? name := by
  apply Option.ext
  intro id
  rw [h.symbol?_eq_some_iff, ← hg.size_eq, lookup?, List.findIdx?_eq_some_iff_getElem]
  have hname : ∀ (j : Nat) (hj : j < g.nodes.length), g.nodes[j].name = table.name j := by
    intro j hj
    have hget : g.node? j = some g.nodes[j] := List.getElem?_eq_getElem hj
    rw [← hg.name_eq hj, Graph.name, hget]
    rfl
  constructor
  · rintro ⟨hlt, heq, -⟩
    exact ⟨hlt, by rw [← hname id hlt]; exact beq_iff_eq.1 heq⟩
  · rintro ⟨hlt, rfl⟩
    refine ⟨hlt, beq_iff_eq.2 (hname id hlt), fun j hj => ?_⟩
    rw [Bool.not_eq_true, beq_eq_false_iff_ne, hname]
    intro hsame
    have hjid : j < g.size := Nat.lt_trans hj hlt
    rw [hg.size_eq] at hlt hjid
    exact Nat.ne_of_lt hj (SymbolTable.name_inj h.vocabulary_nodup hjid hlt hsame)

theorem lt_of_source (hg : g.Numbers table) (h : table.WellFormed) {id : NodeId}
    {node : FlatNode} (hnode : table.node? id = some node) {p : NodeId}
    (hp : p ∈ node.sources) : p < g.size := by
  rw [hg.size_eq]
  exact h.sources_lt id node hnode p hp

end Graph.Numbers

end Progression

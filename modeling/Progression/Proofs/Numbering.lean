import Progression.Proofs.Building
import Progression.Proofs.Dependents

/-!
Numbers of frozen nodes. Nodes are pushed one after another and get the next id each time, so
a symbol without a node would shift the ids of all nodes behind it. Main statement: this never
happens. A symbol without a node is mentioned by a node, so freezing refuses the table and
says where it is mentioned; if nothing is left open, ids are symbols.
-/

namespace Progression

/-- Ids and names lead to each other, and nodes list nodes. -/
structure Graph.Coherent (g : Graph) : Prop where
  lookup?_name : ∀ id < g.size, g.lookup? (g.name id) = some id
  name_lookup? : ∀ name id, g.lookup? name = some id → g.name id = name
  parents_lt : ∀ id, ∀ p ∈ g.parents id, p < g.size
  placements_lt : ∀ id, ∀ p ∈ g.placements id, p < g.size
  dependents_lt : ∀ id, ∀ d ∈ g.dependentsOf id, d < g.size

namespace Graph

variable {g : Graph} {table : FlatTable}

/-- Nodes out of range have no sources, and what nodes of a table mention has a symbol. -/
theorem Numbers.source_lt (hg : g.Numbers table) (h : table.WellFormed) {id p : NodeId}
    (hp : p ∈ g.parents id ∨ p ∈ g.placements id) : p < g.size := by
  by_cases hid : id < g.size
  · obtain ⟨node, hnode⟩ := hg.defined id hid
    have hfrozen := hg.node?_eq id node hnode
    rw [Graph.parents_eq hfrozen, Graph.placements_eq hfrozen] at hp
    exact hg.lt_of_source h hnode (List.mem_append.2 hp)
  · have hnone : g.node? id = none := List.getElem?_eq_none (Nat.le_of_not_lt hid)
    simp [parents, placements, hnone] at hp

theorem dependents_lt
    (hdependents : g.dependents = Wiring.dependents (g.nodes.map GraphNode.wiring))
    {id d : NodeId} (hd : d ∈ g.dependentsOf id) : d < g.size := by
  rw [dependentsOf, hdependents, Wiring.mem_dependents_iff] at hd
  obtain ⟨-, w, hw, -⟩ := hd
  have hlt := (List.getElem?_eq_some_iff.1 hw).1
  rwa [List.length_map] at hlt

theorem Numbers.coherent (hg : g.Numbers table) (h : table.WellFormed) : g.Coherent where
  lookup?_name id hid := by
    rw [hg.lookup?_eq h, hg.name_eq hid, h.symbol?_eq_some_iff, ← hg.size_eq]
    exact ⟨hid, rfl⟩
  name_lookup? name id hlookup := by
    rw [hg.lookup?_eq h, h.symbol?_eq_some_iff, ← hg.size_eq] at hlookup
    rw [hg.name_eq hlookup.1, hlookup.2]
  parents_lt _ _ hp := hg.source_lt h (Or.inl hp)
  placements_lt _ _ hp := hg.source_lt h (Or.inr hp)
  dependents_lt _ _ hd := dependents_lt hg.dependents_eq hd

end Graph

namespace FlatTable

variable {table : FlatTable} {e : FreezeError}

/-- Freezing fails exactly if a node mentions a name without one. -/
theorem exists_freeze_error_iff :
    (∃ e, table.freeze = .error e) ↔ ∃ r, table.LeavesOpen r := by
  rw [← Classical.not_not (a := ∃ r, table.LeavesOpen r), not_exists, ← unresolved_eq_nil_iff]
  exact ⟨fun ⟨e, he⟩ => (freeze_eq_error_iff.1 he).1,
    fun hopen => ⟨_, freeze_eq_error_iff.2 ⟨hopen, rfl⟩⟩⟩

/-- The error says in order and once each which names are left open. -/
theorem references_of_freeze_error (h : table.freeze = .error e) :
    e.references.Pairwise UnresolvedReference.Before ∧
      ∀ r, r ∈ e.references ↔ table.LeavesOpen r := by
  obtain ⟨-, rfl⟩ := freeze_eq_error_iff.1 h
  exact ⟨table.pairwise_unresolved, fun r => mem_unresolved_iff⟩

end FlatTable

/-- Freezing numbers nodes as their symbols are numbered, or says what is missing. -/
theorem Compiled.Built.freeze_numbers {k : Compiled} (h : k.Built) (journal : Journal) :
    (∀ s < k.table.symbols.size, k.table.node? s = none →
      ∃ t node, k.table.node? t = some node ∧ s ∈ node.sources) ∧
    (∀ g, (k.freeze.run journal).1 = .ok g → g.Numbers k.table ∧ g.Coherent) ∧
    ((∃ e, (k.freeze.run journal).1 = .error e) ↔ ∃ r, k.table.LeavesOpen r) ∧
    ∀ e, (k.freeze.run journal).1 = .error e →
      e.references.Pairwise UnresolvedReference.Before ∧
        ∀ r, r ∈ e.references ↔ k.table.LeavesOpen r := by
  refine ⟨?_, ?_, FlatTable.exists_freeze_error_iff, ?_⟩
  · exact fun s hs hnone => h.covered.exists_mention h.wellFormed hs hnone
  · intro g hfreeze
    have hg : g.Numbers k.table := h.numbers hfreeze
    exact ⟨hg, hg.coherent h.wellFormed⟩
  · exact fun e he => FlatTable.references_of_freeze_error he

/-- A slot asks for a gem that no table defines. -/
def gemCompiler : Compiler where
  tables := [⟨"t", false, [("a", .root), ("s", ⟨.andSlot, [.named "a", .named "gem"]⟩)]⟩]

def gemGraph : Graph :=
  ⟨[⟨"a", ⟨.root, [], []⟩, "t", false⟩, ⟨"s", ⟨.andSlot, [0, 2], []⟩, "t", false⟩,
    ⟨"gem", ⟨.and, [], [3]⟩, "linkage", false⟩, ⟨"cave", ⟨.and, [], [1]⟩, "linkage", false⟩],
    [[1], [3], [1], [2]]⟩

/-- The gem lies in a cave that nothing is known of. Once the cave is found in the slot, every
symbol has a node. -/
theorem freeze_numbers_gem :
    ∃ k, (gemCompiler.compile.run {}).1 = .ok k ∧
      (((k.link [⟨"cave", "gem"⟩]).run {}).1.1.freeze.run {}).1 =
        .error ⟨[⟨"gem", "cave"⟩]⟩ ∧
      ((k.link [⟨"cave", "gem"⟩]).run {}).1.1.table.LeavesOpen ⟨"gem", "cave"⟩ ∧
      (((k.link [⟨"cave", "gem"⟩, ⟨"s", "cave"⟩]).run {}).1.1.freeze.run {}).1 = .ok gemGraph ∧
      gemGraph.Coherent := by
  have hruns : ((gemCompiler.compile.run {}).1.map fun k =>
      ((((k.link [⟨"cave", "gem"⟩]).run {}).1.1.freeze.run {}).1,
        (((k.link [⟨"cave", "gem"⟩, ⟨"s", "cave"⟩]).run {}).1.1.freeze.run {}).1)) =
      .ok (.error ⟨[⟨"gem", "cave"⟩]⟩, .ok gemGraph) := by cbv
  obtain ⟨k, hcompile, hfreeze⟩ := exists_eq_ok_of_map hruns
  obtain ⟨hopen, hfrozen⟩ := Prod.mk.inj hfreeze
  have hbuilt : k.Built := .compile {} hcompile
  obtain ⟨-, -, -, hreferences⟩ :=
    Compiled.Built.freeze_numbers (.link {} [⟨"cave", "gem"⟩] hbuilt) {}
  obtain ⟨-, hcoherent, -⟩ :=
    Compiled.Built.freeze_numbers (.link {} [⟨"cave", "gem"⟩, ⟨"s", "cave"⟩] hbuilt) {}
  exact ⟨k, hcompile, hopen, ((hreferences _ hopen).2 _).1 List.mem_cons_self, hfrozen,
    (hcoherent _ hfrozen).2⟩

end Progression

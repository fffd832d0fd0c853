import Progression.Proofs.Solving

/-!
What placements unlock. A record gives its treasure one more way to be obtained, and every gate
that counts the treasure one more producer. Main statement: what could be reached before can be
reached after. The exception are nodes that were free: the first placement of a node without
parents is the only way to it from then on.
-/

namespace Progression

namespace FlatTable

variable {table table' : FlatTable} {difficulty : Difficulty} {inventory : Inventory}

/-- What opens by the rules of a table is obtained by any rules that open as much. -/
theorem Obtains.of_opens
    (hopens : ∀ (isOpen : String → Bool) n, table.opens difficulty isOpen n = true →
      table'.opens difficulty isOpen n = true) {name : String}
    (h : table.Obtains difficulty inventory name) : table'.Obtains difficulty inventory name := by
  intro isOpen hitems hclosed
  exact h isOpen hitems fun n hopen => hclosed n (hopens isOpen n hopen)

/-- Producers that come with records stand behind the others. -/
theorem prefix_producersOf_link (h : table.WellFormed) (records : List Placement)
    (parents : List String) :
    table.producersOf parents <+: (table.link records).1.producersOf parents := by
  cases parents with
  | nil => exact List.prefix_refl _
  | cons resource rest =>
      cases hnode : table.named? resource with
      | none =>
          simp only [producersOf, hnode]
          exact List.nil_prefix
      | some node =>
          have hlinked := named?_link_of_some h records hnode
          rw [NamedNode.placeAll_eq] at hlinked
          simp only [producersOf, hnode, hlinked]
          rw [List.prefix_append_right_inj]
          exact (node.prefix_placeAll _).filter _

/-- The records give no placement to a node that has neither parents nor placements. -/
def SparesFree (table : FlatTable) (records : List Placement) : Prop :=
  ∀ record ∈ records, ∀ node, table.named? record.treasure = some node →
    node.parents ≠ [] ∨ node.placements ≠ []

theorem opens_link (h : table.WellFormed) {records : List Placement}
    (hfree : table.SparesFree records) {isOpen : String → Bool} {name : String}
    (hopen : table.opens difficulty isOpen name = true) :
    (table.link records).1.opens difficulty isOpen name = true := by
  rw [opens, Option.any_eq_true] at hopen ⊢
  obtain ⟨node, hnode, hopens⟩ := hopen
  refine ⟨_, named?_link_of_some h records hnode, ?_⟩
  have hplaced := node.prefix_placeAll (Placement.locations records name)
  have hproducers := prefix_producersOf_link h records node.parents
  rw [NamedNode.placeAll_eq]
  refine Kind.opensPlaced_of_more hproducers.sublist.countP_le hplaced.subset ?_ hopens
  intro hparents hplacements
  -- A first placement would be given by a record whose treasure is free.
  have hnil : Placement.locations records name = [] := by
    rw [List.eq_nil_iff_forall_not_mem]
    intro location hlocation
    rcases hfree _ (Placement.mem_locations_iff.1 hlocation) node hnode with hsome | hsome
    · exact hsome hparents
    · exact hsome hplacements
  rw [hnil]
  exact hplacements

end FlatTable

/-! ### Main statement -/

/-- Placements lock nothing that was reachable, if none of them goes to a node that was free. -/
theorem Compiled.Built.isReachable_link {k : Compiled} {g g' : Graph}
    {journal journal' journal'' : Journal} (h : k.Built) {records : List Placement}
    (hfree : k.table.SparesFree records) (hfreeze : (k.freeze.run journal).1 = .ok g)
    (hfreeze' : (((k.link records).run journal').1.1.freeze.run journal'').1 = .ok g')
    {difficulty : Difficulty} {inventory : Inventory} {name : String}
    (hreach : g.reader.isReachable difficulty inventory name = .ok true) :
    g'.reader.isReachable difficulty inventory name = .ok true := by
  have hlinked : ((k.link records).run journal').1.1.Built := .link journal' records h
  rw [(h.numbers hfreeze).isReachable_iff h.wellFormed] at hreach
  rw [(hlinked.numbers hfreeze').isReachable_iff hlinked.wellFormed]
  obtain ⟨hknown, hobtains⟩ := hreach
  refine ⟨fun item hitem => ?_, hobtains.of_opens fun isOpen n => ?_⟩
  · obtain ⟨node, hnode⟩ := Option.ne_none_iff_exists'.1 (hknown item hitem)
    show (k.table.link records).1.named? item ≠ none
    rw [FlatTable.named?_link_of_some h.wellFormed records hnode]
    exact Option.some_ne_none _
  · exact FlatTable.opens_link h.wellFormed hfree

/-- The door with a second way to its key, and a coin behind the key. -/
def keyGraph : Graph :=
  ⟨[⟨"a", ⟨.root, [], []⟩, "t", false⟩, ⟨"d", ⟨.count 2, [2], []⟩, "t", false⟩,
    ⟨"k", ⟨.or, [0, 0], [3]⟩, "t", false⟩, ⟨"s", ⟨.andSlot, [1], []⟩, "t", false⟩,
    ⟨"coin", ⟨.and, [], [2]⟩, "linkage", false⟩], [[1, 2], [3], [1, 4], [1, 2], []]⟩

theorem isReachable_link_key :
    ∃ k, (doorCompiler.compile.run {}).1 = .ok k ∧
      k.table.SparesFree [⟨"s", "k"⟩, ⟨"k", "coin"⟩] ∧ (k.freeze.run {}).1 = .ok doorGraph ∧
      (((k.link [⟨"s", "k"⟩, ⟨"k", "coin"⟩]).run {}).1.1.freeze.run {}).1 = .ok keyGraph ∧
      doorGraph.reader.isReachable .normal ⟨["d"]⟩ "s" = .ok true ∧
      keyGraph.reader.isReachable .normal ⟨["d"]⟩ "s" = .ok true := by
  have hruns : ((doorCompiler.compile.run {}).1.map fun k =>
      ((k.table.named? "k", k.table.named? "coin"), (k.freeze.run {}).1,
        (((k.link [⟨"s", "k"⟩, ⟨"k", "coin"⟩]).run {}).1.1.freeze.run {}).1)) =
      .ok ((some ⟨.or, ["a", "a"], [], "t", false⟩, none), .ok doorGraph, .ok keyGraph) := by cbv
  obtain ⟨k, hcompile, heq⟩ := exists_eq_ok_of_map hruns
  obtain ⟨hnodes, hgraphs⟩ := Prod.mk.inj heq
  obtain ⟨hkey, hcoin⟩ := Prod.mk.inj hnodes
  obtain ⟨hfreeze, hfreeze'⟩ := Prod.mk.inj hgraphs
  have hfree : k.table.SparesFree [⟨"s", "k"⟩, ⟨"k", "coin"⟩] := by
    simp [FlatTable.SparesFree, hkey, hcoin]
  have hreach : doorGraph.reader.isReachable .normal ⟨["d"]⟩ "s" = .ok true := by cbv
  exact ⟨k, hcompile, hfree, hfreeze, hfreeze', hreach,
    Compiled.Built.isReachable_link (.compile {} hcompile) hfree hfreeze hfreeze' hreach⟩

end Progression

import Progression.Proofs.Solving
import Progression.Proofs.Validating

/-!
Why nodes open. A gate that asks for all of its parents would open by itself if it had none.
Main statement: this never happens. A node that no item opens is a free root, or asks for a
number of nothing, or opens because of a node that was found before it.

Three stages have a hand in this. Validation refuses gates without parents, linking makes no
node without a placement, and a node that has placements and no parents waits for a placement.
-/

namespace Progression

namespace Kind

variable {α : Type} {kind : Kind} {difficulty : Difficulty} {isOpen : α → Bool}

theorem combinator_eq_atLeast_iff {min : UInt32} :
    kind.combinator = .atLeast min ↔ kind = .count min := by
  cases kind <;> simp [combinator]

/-- A gate with parents opens only by an open parent or an open producer, unless it counts to
nothing. -/
theorem exists_open_of_opens {parents producers : List α} (hparents : parents ≠ [])
    (h : kind.opens difficulty isOpen parents producers = true) :
    kind = .count 0 ∨ (kind.isCount = false ∧ ∃ p ∈ parents, isOpen p = true) ∨
      ((∃ min, kind = .count min) ∧ ∃ p ∈ producers, isOpen p = true) := by
  rw [opens, Bool.and_eq_true] at h
  have hopen := h.2
  cases hcombinator : kind.combinator with
  | all =>
      simp only [hcombinator, List.all_eq_true] at hopen
      obtain ⟨p, hp⟩ := List.exists_mem_of_ne_nil parents hparents
      exact Or.inr (Or.inl ⟨by cases kind <;> simp_all [combinator, isCount], p, hp, hopen p hp⟩)
  | any =>
      simp only [hcombinator, List.any_eq_true] at hopen
      exact Or.inr (Or.inl ⟨by cases kind <;> simp_all [combinator, isCount], hopen⟩)
  | atLeast min =>
      rw [combinator_eq_atLeast_iff] at hcombinator
      subst hcombinator
      by_cases hmin : min = 0
      · exact Or.inl (by rw [hmin])
      · have hpos : 0 < min.toNat := by
          rw [Nat.pos_iff_ne_zero]
          exact fun hzero => hmin (UInt32.toNat_inj.1 hzero)
        have hcount : min.toNat ≤ producers.countP isOpen := of_decide_eq_true hopen
        exact Or.inr (Or.inr ⟨⟨min, rfl⟩, List.countP_pos_iff.1 (Nat.lt_of_lt_of_le hpos hcount)⟩)

end Kind

/-! ### Nodes of a table -/

namespace FlatTable

variable {table : FlatTable}

/-- Every node that is no root has a parent or a placement. -/
def HasSources (table : FlatTable) : Prop :=
  ∀ name node, table.named? name = some node → node.kind.isRoot = false → node.sources ≠ []

/-- Validation refuses nodes without parents. -/
theorem hasSources_of_validate (h : table.WellFormed) {policy : Policy}
    (hvalid : table.validate policy = .ok ()) : table.HasSources := by
  intro name node hnode hroot hnil
  have hparents : node.parents = [] := (List.append_eq_nil_iff.1 hnil).1
  exact h.validate_eq_ok_iff.1 hvalid _ (.missingParents hnode hroot hparents)

/-- A record leaves its treasure with a placement and no other node with less than it had. -/
theorem HasSources.linkRecord (hsources : table.HasSources) (h : table.WellFormed)
    (stats : LinkStats) (record : Placement) :
    (table.linkRecord stats record).1.HasSources := by
  intro name node hnode hroot
  rw [named?_linkRecord h] at hnode
  split at hnode
  case isTrue =>
      obtain rfl := Option.some.inj hnode
      have hplaced : record.location ∈ (((table.named? name).getD
          NamedNode.treasure).place record.location).placements :=
        NamedNode.mem_place_iff.2 (Or.inr rfl)
      exact List.ne_nil_of_mem (List.mem_append_right _ hplaced)
  case isFalse => exact hsources name node hnode hroot

theorem HasSources.link (hsources : table.HasSources) (h : table.WellFormed)
    (records : List Placement) : (table.link records).1.HasSources :=
  h.link_induction (P := FlatTable.HasSources)
    (fun _ stats record ht hs => hs.linkRecord ht stats record) records hsources

end FlatTable

theorem Compiled.Built.hasSources {k : Compiled} (h : k.Built) : k.table.HasSources := by
  induction h with
  | compile journal hcompile =>
      have hwell := (Compiled.Built.compile journal hcompile).wellFormed
      obtain ⟨book, table, -, -, hvalid, rfl⟩ := Compiler.compile_eq_ok_iff.1 hcompile
      exact FlatTable.hasSources_of_validate hwell hvalid
  | link journal records hbuilt ih => exact ih.link hbuilt.wellFormed records

/-! ### Nodes of a graph -/

namespace Graph

variable {g : Graph} {table : FlatTable} {difficulty : Difficulty} {before : List NodeId}
  {id : NodeId}

/-- What a node owes its opening to when the nodes `before` are open. -/
inductive IsGrounded (g : Graph) (before : List NodeId) (id : NodeId) : Prop
  /-- A root that asks for nothing. -/
  | free : g.kind? id = some .root → g.parents id = [] → g.placements id = [] →
      IsGrounded g before id
  /-- A gate that counts to nothing. -/
  | noThreshold : g.kind? id = some (.count 0) → g.parents id ≠ [] → IsGrounded g before id
  | placement {p : NodeId} : p ∈ g.placements id → p ∈ before → IsGrounded g before id
  | parent {kind : Kind} {p : NodeId} : g.kind? id = some kind → kind.isCount = false →
      p ∈ g.parents id → p ∈ before → IsGrounded g before id
  | producer {min : UInt32} {resource p : NodeId} {rest : List NodeId} :
      g.kind? id = some (.count min) → g.parents id = resource :: rest →
      p ∈ g.parents resource ∨ p ∈ g.placements resource → p ∈ before → IsGrounded g before id

/-- A node without sources is a root, as it is in the table. -/
theorem Numbers.isRoot_of_sources_eq_nil (hg : g.Numbers table) (h : table.WellFormed)
    (hsources : table.HasSources) {kind : Kind} (hkind : g.kind? id = some kind)
    (hparents : g.parents id = []) (hplacements : g.placements id = []) :
    kind.isRoot = true := by
  have hid : id < g.size := lt_of_kind? hkind
  obtain ⟨node, hnode⟩ := hg.defined id hid
  obtain rfl : node.kind = kind :=
    Option.some.inj ((kind?_eq (hg.node?_eq id node hnode)).symm.trans hkind)
  rw [hg.parents_eq hnode] at hparents
  rw [hg.placements_eq hnode] at hplacements
  have hnamed := h.named?_name (hg.size_eq ▸ hid)
  rw [hnode, Option.map_some] at hnamed
  by_contra hroot
  apply hsources _ _ hnamed
  · exact Bool.eq_false_of_not_eq_true hroot
  · simp [NamedNode.sources, FlatTable.toNamed, hparents, hplacements]

theorem exists_resource_of_mem_producers {parents : List NodeId} {p : NodeId}
    (hp : p ∈ g.reader.producers parents) :
    ∃ resource rest, parents = resource :: rest ∧
      (p ∈ g.parents resource ∨ p ∈ g.placements resource) := by
  cases parents with
  | nil => exact absurd hp List.not_mem_nil
  | cons resource rest =>
      exact ⟨resource, rest, rfl, (List.mem_append.1 hp).imp_right List.mem_of_mem_filter⟩

/-- A node whose rule holds of the nodes `before` owes it to one of them, or is free. -/
theorem isGrounded_of_holds
    (hroot : ∀ kind, g.kind? id = some kind → g.parents id = [] → g.placements id = [] →
      kind.isRoot = true)
    (h : g.reader.holds difficulty (before.contains ·) id = true) : g.IsGrounded before id := by
  rw [Reader.holds_eq, Option.any_eq_true] at h
  obtain ⟨kind, hkind, hopen⟩ := h
  rw [Kind.opensPlaced, Bool.or_eq_true, List.any_eq_true, Bool.and_eq_true] at hopen
  rcases hopen with ⟨p, hp, hbefore⟩ | ⟨hplain, hopens⟩
  · exact .placement hp (List.contains_iff_mem.1 hbefore)
  · by_cases hparents : g.parents id = []
    · have hplacements : g.placements id = [] := by
        have hparents' : g.reader.parents id = [] := hparents
        rw [hparents', List.isEmpty_nil, Bool.not_true, Bool.or_false] at hplain
        exact List.isEmpty_iff.1 hplain
      have hkind' := Kind.isRoot_eq_true_iff.1 (hroot kind hkind hparents hplacements)
      exact .free (hkind' ▸ hkind) hparents hplacements
    · rcases Kind.exists_open_of_opens hparents hopens with
        rfl | ⟨hcount, p, hp, hbefore⟩ | ⟨⟨min, rfl⟩, p, hp, hbefore⟩
      · exact .noThreshold hkind hparents
      · exact .parent hkind hcount hp (List.contains_iff_mem.1 hbefore)
      · obtain ⟨resource, rest, hresource, hsource⟩ := exists_resource_of_mem_producers hp
        exact .producer hkind hresource hsource (List.contains_iff_mem.1 hbefore)

/-- A gate without parents waits for a placement. -/
theorem IsGrounded.exists_placement (h : g.IsGrounded before id) {kind : Kind}
    (hkind : g.kind? id = some kind) (hroot : kind.isRoot = false)
    (hparents : g.parents id = []) : ∃ p ∈ g.placements id, p ∈ before := by
  cases h with
  | free hfree _ _ =>
      obtain rfl := Option.some.inj (hkind.symm.trans hfree)
      contradiction
  | noThreshold _ hsome => exact absurd hparents hsome
  | placement hp hbefore => exact ⟨_, hp, hbefore⟩
  | parent _ _ hp _ => simp [hparents] at hp
  | producer _ hresource _ _ => simp [hparents] at hresource

end Graph

/-! ### Main statement -/

/-- Nothing opens out of nothing: a node that no item opens is free or counts to nothing, or
builds on a node that was found before it. So a gate without parents opens by a placement only,
even if it asks for all of them. -/
theorem Compiled.Built.isGrounded {k : Compiled} {g : Graph} {journal : Journal} (h : k.Built)
    (hfreeze : (k.freeze.run journal).1 = .ok g) {difficulty : Difficulty}
    {inventory : Inventory} {reached : Reached}
    (hsolve : g.reader.solve difficulty inventory = .ok reached)
    {before after : List NodeId} {id : NodeId} (horder : reached.order = before ++ id :: after)
    (hitem : ∀ item ∈ inventory.items, g.lookup? item ≠ some id) :
    id ∉ before ∧ g.IsGrounded before id ∧
      ∀ kind, g.kind? id = some kind → kind.isRoot = false → g.parents id = [] →
        ∃ p ∈ g.placements id, p ∈ before := by
  have hg := h.numbers hfreeze
  obtain ⟨hnew, hholds⟩ := Reader.holds_of_solve hsolve horder hitem
  have hgrounded : g.IsGrounded before id := by
    apply Graph.isGrounded_of_holds _ hholds
    intro kind hkind hparents hplacements
    exact hg.isRoot_of_sources_eq_nil h.wellFormed h.hasSources hkind hparents hplacements
  refine ⟨hnew, hgrounded, fun kind hkind hroot hparents => ?_⟩
  exact hgrounded.exists_placement hkind hroot hparents

/-- A slot asks for a gem that no table defines, inside a gate of its own. -/
def caveCompiler : Compiler where
  tables := [⟨"t", false, [("a", .root), ("s", ⟨.andSlot, [.inline .or [.named "gem"]]⟩)]⟩]
  policy := { names := ["a"] }

def caveGraph : Graph :=
  ⟨[⟨"a", ⟨.root, [], []⟩, "t", false⟩, ⟨"s", ⟨.andSlot, [2], []⟩, "t", false⟩,
    ⟨"s 1", ⟨.or, [3], []⟩, "t", false⟩, ⟨"gem", ⟨.and, [], [4]⟩, "linkage", false⟩,
    ⟨"cave", ⟨.and, [], [0]⟩, "linkage", false⟩], [[4], [], [1], [2], [3]]⟩

/-- The gem lies in a cave. It has no parents and is found behind the cave only. -/
theorem isGrounded_cave :
    ∃ k, (caveCompiler.compile.run {}).1 = .ok k ∧
      (((k.link [⟨"cave", "gem"⟩, ⟨"a", "cave"⟩]).run {}).1.1.freeze.run {}).1 = .ok caveGraph ∧
      caveGraph.reader.solve .normal ⟨["s"]⟩ = .ok ⟨[1, 0, 4] ++ 3 :: [2]⟩ ∧
      (∀ item ∈ ["s"], caveGraph.lookup? item ≠ some 3) ∧
      caveGraph.kind? 3 = some .and ∧ caveGraph.parents 3 = [] ∧
      caveGraph.IsGrounded [1, 0, 4] 3 ∧ ∃ p ∈ caveGraph.placements 3, p ∈ [1, 0, 4] := by
  have hruns : ((caveCompiler.compile.run {}).1.map fun k =>
      (((k.link [⟨"cave", "gem"⟩, ⟨"a", "cave"⟩]).run {}).1.1.freeze.run {}).1) =
      .ok (.ok caveGraph) := by cbv
  obtain ⟨k, hcompile, hfreeze⟩ := exists_eq_ok_of_map hruns
  have hsolve : caveGraph.reader.solve .normal ⟨["s"]⟩ = .ok ⟨[1, 0, 4] ++ 3 :: [2]⟩ := by cbv
  have hitem : ∀ item ∈ ["s"], caveGraph.lookup? item ≠ some 3 := by decide
  obtain ⟨-, hgrounded, hplacement⟩ :=
    Compiled.Built.isGrounded (.link {} _ (.compile {} hcompile)) hfreeze hsolve rfl hitem
  exact ⟨k, hcompile, hfreeze, hsolve, hitem, by decide, by decide, hgrounded,
    hplacement .and (by decide) rfl (by decide)⟩

end Progression

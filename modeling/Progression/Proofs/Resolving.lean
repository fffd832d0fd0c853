import Progression.Graph
import Progression.Proofs.Interning
import Progression.Proofs.Sorting

/-!
References left open. When a table cannot be frozen, the error lists every mention of a name
without a node: in order, each pair of names once, and nothing else. Which pairs these are can
be read by name, so that tables with the same nodes leave the same references open.
-/

namespace Progression

namespace UnresolvedReference

def key (r : UnresolvedReference) : String ×ₗ String :=
  toLex (r.node, r.missing)

/-- By node, then by the name that is missing. -/
def Before (a b : UnresolvedReference) : Prop :=
  a.node < b.node ∨ a.node = b.node ∧ a.missing < b.missing

theorem before_iff {a b : UnresolvedReference} : a.Before b ↔ a.key < b.key := by
  rw [key, key, Prod.Lex.toLex_lt_toLex, Before]

theorem le_eq_true_iff (a b : UnresolvedReference) : a.le b = true ↔ a.key ≤ b.key := by
  rw [key, key, Prod.Lex.toLex_le_toLex, le]
  by_cases hnode : a.node = b.node
  · simp [hnode]
  · simp [hnode, le_iff_lt_or_eq]

theorem key_injective : Function.Injective key := by
  intro a b h
  obtain ⟨hnode, hmissing⟩ := Prod.mk.inj (toLex_inj.1 h)
  cases a
  cases b
  simp_all

instance : Std.Antisymm Before where
  antisymm _ _ hab hba := absurd (before_iff.1 hba) (before_iff.1 hab).asymm

instance : Std.Irrefl Before where
  irrefl _ h := lt_irrefl _ (before_iff.1 h)

@[simp] theorem mem_dropRepeats_iff {r : UnresolvedReference} (found : List UnresolvedReference) :
    r ∈ dropRepeats found ↔ r ∈ found := by
  fun_induction dropRepeats found with
  | case1 a rs ih => simp [ih]
  | case2 a b rs hne ih => simp [ih]
  | case3 rs hshort => exact Iff.rfl

/-- Equal references stand side by side once they are sorted, so one of each is left. -/
theorem pairwise_dropRepeats (found : List UnresolvedReference)
    (h : found.Pairwise fun a b => a.key ≤ b.key) : (dropRepeats found).Pairwise Before := by
  fun_induction dropRepeats found with
  | case1 a rs ih => exact ih (List.pairwise_cons.1 h).2
  | case2 a b rs hne ih =>
      obtain ⟨hfirst, hrest⟩ := List.pairwise_cons.1 h
      refine List.pairwise_cons.2 ⟨fun r hr => before_iff.2 ?_, ih hrest⟩
      have hab : a.key < b.key :=
        lt_of_le_of_ne (hfirst b List.mem_cons_self) fun heq => hne (key_injective heq)
      rcases List.mem_cons.1 ((mem_dropRepeats_iff _).1 hr) with rfl | hr
      · exact hab
      · exact lt_of_lt_of_le hab ((List.pairwise_cons.1 hrest).1 r hr)
  | case3 rs hshort =>
      cases rs with
      | nil => exact List.Pairwise.nil
      | cons a rs =>
          cases rs with
          | nil => exact List.pairwise_singleton _ _
          | cons b rs => exact absurd rfl (hshort a b rs)

end UnresolvedReference

namespace FlatTable

variable {table : FlatTable} {r : UnresolvedReference}

/-- Some node mentions a symbol that has no node; these are their names. -/
def LeavesOpen (table : FlatTable) (r : UnresolvedReference) : Prop :=
  ∃ s node p, table.node? s = some node ∧ p ∈ node.sources ∧ table.node? p = none ∧
    r = ⟨table.name s, table.name p⟩

@[simp] theorem mem_unresolved_iff : r ∈ table.unresolved ↔ table.LeavesOpen r := by
  rw [unresolved, UnresolvedReference.mem_dropRepeats_iff, List.mem_mergeSort, List.mem_flatMap]
  constructor
  · rintro ⟨⟨s, node⟩, hmem, hr⟩
    obtain ⟨p, hp, rfl⟩ := List.mem_map.1 hr
    obtain ⟨hsource, hnone⟩ := List.mem_filter.1 hp
    exact ⟨s, node, p, mem_defined_iff.1 hmem, hsource, Option.isNone_iff_eq_none.1 hnone, rfl⟩
  · rintro ⟨s, node, p, hnode, hsource, hnone, rfl⟩
    refine ⟨(s, node), mem_defined_iff.2 hnode, List.mem_map.2 ⟨p, ?_, rfl⟩⟩
    exact List.mem_filter.2 ⟨hsource, Option.isNone_iff_eq_none.2 hnone⟩

/-- References that are left open are listed in order and once each. -/
theorem pairwise_unresolved (table : FlatTable) :
    table.unresolved.Pairwise UnresolvedReference.Before :=
  UnresolvedReference.pairwise_dropRepeats _
    (pairwise_mergeSort_key UnresolvedReference.le_eq_true_iff _)

theorem unresolved_eq_nil_iff : table.unresolved = [] ↔ ∀ r, ¬ table.LeavesOpen r := by
  rw [List.eq_nil_iff_forall_not_mem]
  exact forall_congr' fun r => by rw [mem_unresolved_iff]

/-- What is left open, read by name. -/
theorem WellFormed.leavesOpen_iff (h : table.WellFormed) :
    table.LeavesOpen r ↔ ∃ node, table.named? r.node = some node ∧ r.missing ∈ node.sources ∧
      table.named? r.missing = none := by
  constructor
  · rintro ⟨s, node, p, hnode, hsource, hnone, rfl⟩
    refine ⟨table.toNamed node, ?_, ?_, ?_⟩
    · rw [h.named?_name (h.lt_of_node? hnode), hnode]
      rfl
    · show table.name p ∈ (node.parents.map table.name) ++ (node.placements.map table.name)
      rw [← List.map_append]
      exact List.mem_map_of_mem hsource
    · rw [h.named?_name (h.sources_lt s node hnode p hsource), hnone]
      rfl
  · rintro ⟨node, hnamed, hsource, hnone⟩
    obtain ⟨s, n, hnode, hname, rfl⟩ := h.named?_eq_some_iff.1 hnamed
    have hmem : r.missing ∈ n.sources.map table.name := by
      rw [FlatNode.sources, List.map_append]
      exact hsource
    obtain ⟨p, hp, hmissing⟩ := List.mem_map.1 hmem
    refine ⟨s, n, p, hnode, hp, ?_, by rw [hname, hmissing]⟩
    rw [← hmissing, h.named?_name (h.sources_lt s n hnode p hp)] at hnone
    exact Option.map_eq_none_iff.1 hnone

end FlatTable

end Progression

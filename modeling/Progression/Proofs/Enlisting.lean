import Mathlib.Data.List.Destutter
import Mathlib.Data.List.Sort
import Progression.Proofs.Dependents

/-!
The dependents of all nodes, collected in one pass. Every node in turn is put at the end of the
lists of its sources and, if it is a count gate, of the sources of each of them, as often as they
are named; in the end each list is sorted and repetitions are dropped. Main statement: the pass
collects the dependents, they are those that read the node, and opening a node changes the answer
of none but its dependents.
-/

namespace Progression

namespace Wiring

variable {wirings : List Wiring} {lists : List (List NodeId)} {w : Wiring} {p d : NodeId}

/-! ### The pass -/

/-- Puts a node at the end of the list of another one, if there is such a list. -/
def enlist (d : NodeId) (lists : List (List NodeId)) (p : NodeId) : List (List NodeId) :=
  lists.modify p (· ++ [d])

/-- Enlists a node with its sources and, for a count gate, with the sources of each of them. -/
def enlistNode (wirings : List Wiring) (lists : List (List NodeId)) (w : Wiring) (d : NodeId) :
    List (List NodeId) :=
  let lists := w.sources.foldl (enlist d) lists
  if w.kind.isCount then
    w.sources.foldl (fun lists q => (sourcesAt wirings q).foldl (enlist d) lists) lists
  else lists

/-- In order, and one of each. -/
def tidy (ids : List NodeId) : List NodeId :=
  (ids.mergeSort (· ≤ ·)).destutter (· ≠ ·)

/-- All nodes in turn, and then every list by itself. -/
def collect (wirings : List Wiring) : List (List NodeId) :=
  (wirings.zipIdx.foldl (fun lists node => enlistNode wirings lists node.1 node.2)
    (List.replicate wirings.length [])).map tidy

/-! ### One node -/

/-- A node is enlisted with whatever it reads. -/
theorem enlistNode_eq (wirings : List Wiring) (lists : List (List NodeId)) (w : Wiring)
    (d : NodeId) : enlistNode wirings lists w d = (reads wirings w).foldl (enlist d) lists := by
  rw [enlistNode, reads, List.foldl_append]
  split
  · rw [List.foldl_flatMap]
  · rfl

theorem getElem?_foldl_enlist (d : NodeId) (ids : List NodeId) (lists : List (List NodeId))
    (p : NodeId) :
    (ids.foldl (enlist d) lists)[p]? = lists[p]?.map (· ++ List.replicate (ids.count p) d) := by
  induction ids generalizing lists with
  | nil => simp
  | cons q ids ih =>
      rw [List.foldl_cons, ih, enlist, List.getElem?_modify, List.count_cons]
      by_cases hq : q = p
      · cases lists[p]? <;> simp [hq, Nat.add_comm _ 1, List.replicate_add]
      · cases lists[p]? <;> simp [hq]

/-- What the list of a node gets from other nodes: each of them as often as it reads the node. -/
def enlisted (wirings : List Wiring) (nodes : List (Wiring × NodeId)) (p : NodeId) :
    List NodeId :=
  nodes.flatMap fun node => List.replicate ((reads wirings node.1).count p) node.2

theorem getElem?_foldl_enlistNode (wirings : List Wiring) (nodes : List (Wiring × NodeId))
    (lists : List (List NodeId)) (p : NodeId) :
    (nodes.foldl (fun lists node => enlistNode wirings lists node.1 node.2) lists)[p]? =
      lists[p]?.map (· ++ enlisted wirings nodes p) := by
  induction nodes generalizing lists with
  | nil => simp [enlisted]
  | cons node nodes ih =>
      rw [List.foldl_cons, ih, enlistNode_eq, getElem?_foldl_enlist]
      cases lists[p]? <;> simp [enlisted]

/-! ### What is collected -/

theorem pairwise_tidy (ids : List NodeId) : (tidy ids).Pairwise (· < ·) := by
  have hsorted : (ids.mergeSort (· ≤ ·)).Pairwise (· ≤ ·) := List.pairwise_mergeSort' (· ≤ ·) ids
  rw [tidy, hsorted.destutter_eq_dedup]
  exact ((hsorted.sublist (List.dedup_sublist _)).and (List.nodup_dedup _)).imp
    fun h => Nat.lt_of_le_of_ne h.1 h.2

@[simp] theorem mem_tidy_iff (ids : List NodeId) : d ∈ tidy ids ↔ d ∈ ids := by
  have hsorted : (ids.mergeSort (· ≤ ·)).Pairwise (· ≤ ·) := List.pairwise_mergeSort' (· ≤ ·) ids
  rw [tidy, hsorted.destutter_eq_dedup, List.mem_dedup, List.mem_mergeSort]

theorem mem_enlisted_iff :
    d ∈ enlisted wirings wirings.zipIdx p ↔ ∃ w, wirings[d]? = some w ∧ p ∈ reads wirings w := by
  simp only [enlisted, List.mem_flatMap, Prod.exists, List.mem_zipIdx_iff_getElem?,
    List.mem_replicate, List.count_eq_zero, ne_eq, Classical.not_not]
  constructor
  · rintro ⟨w, _, hw, hread, rfl⟩
    exact ⟨w, hw, hread⟩
  · rintro ⟨w, hw, hread⟩
    exact ⟨w, d, hw, hread, rfl⟩

theorem getElem?_collect (wirings : List Wiring) (p : NodeId) :
    (collect wirings)[p]? =
      if p < wirings.length then some (tidy (enlisted wirings wirings.zipIdx p)) else none := by
  rw [collect, List.getElem?_map, getElem?_foldl_enlistNode, List.getElem?_replicate]
  split <;> simp

theorem getElem?_dependents (wirings : List Wiring) (p : NodeId) :
    (dependents wirings)[p]? =
      if p < wirings.length then some ((dependents wirings).getD p []) else none := by
  have hlength : (dependents wirings).length = wirings.length := by simp [dependents]
  rw [List.getD_eq_getElem?_getD, ← hlength]
  split
  case isTrue hlt => rw [List.getElem?_eq_getElem hlt, Option.getD_some]
  case isFalse hge => exact List.getElem?_eq_none (Nat.le_of_not_lt hge)

/-- Dependents are listed by going through all nodes, so they come in order. -/
theorem pairwise_dependents (wirings : List Wiring) (p : NodeId) :
    ((dependents wirings).getD p []).Pairwise (· < ·) := by
  rw [dependents, List.getD_eq_getElem?_getD, List.getElem?_map]
  cases hp : (List.range wirings.length)[p]? with
  | none => exact List.Pairwise.nil
  | some q =>
      rw [Option.map_some, Option.getD_some]
      have hids : ∀ {α : Type} (l : List α), l.zipIdx.Pairwise fun a b => a.2 < b.2 := by
        intro α l
        rw [← List.pairwise_map, List.zipIdx_map_snd]
        exact List.pairwise_lt_range'
      refine (hids _).filterMap _ fun x y hlt c hc d hd => ?_
      obtain ⟨_, i⟩ := x
      obtain ⟨_, j⟩ := y
      obtain ⟨-, hi⟩ := Option.ite_none_right_eq_some.1 hc
      obtain ⟨-, hj⟩ := Option.ite_none_right_eq_some.1 hd
      rw [← Option.some.inj hi, ← Option.some.inj hj]
      exact hlt

theorem collect_eq (wirings : List Wiring) : collect wirings = dependents wirings := by
  refine List.ext_getElem? fun p => ?_
  rw [getElem?_collect, getElem?_dependents]
  split
  case isFalse => rfl
  case isTrue hp =>
    -- Both lists rise strictly, so it is enough that they have the same members.
    have hmem : ∀ d, d ∈ tidy (enlisted wirings wirings.zipIdx p) ↔
        d ∈ (dependents wirings).getD p [] := by
      intro d
      rw [mem_tidy_iff, mem_dependents_iff, and_iff_right hp, mem_enlisted_iff]
    have hcollected := pairwise_tidy (enlisted wirings wirings.zipIdx p)
    have hlisted := pairwise_dependents wirings p
    have hperm := (List.perm_ext_iff_of_nodup (hcollected.imp Nat.ne_of_lt)
      (hlisted.imp Nat.ne_of_lt)).2 hmem
    rw [hperm.eq_of_pairwise (fun a b _ _ hab hba => absurd hab (Nat.lt_asymm hba))
      hcollected hlisted]

/-! ### Main statement -/

theorem mem_sourcesAt_iff {q : NodeId} :
    p ∈ sourcesAt wirings q ↔ ∃ v, wirings[q]? = some v ∧ p ∈ v.sources := by
  rw [sourcesAt]
  cases wirings[q]? <;> simp

theorem mem_reads_iff : p ∈ reads wirings w ↔ p ∈ w.sources ∨
    w.kind.isCount = true ∧ ∃ q ∈ w.sources, ∃ v, wirings[q]? = some v ∧ p ∈ v.sources := by
  rw [reads, List.mem_append]
  refine or_congr_right ?_
  split
  case isTrue hcount => simp [hcount, mem_sourcesAt_iff]
  case isFalse hcount => simp [hcount]

/-- Nodes whose sources are all in range read nothing else. -/
theorem lt_of_mem_reads (hrange : ∀ v ∈ wirings, ∀ p ∈ v.sources, p < wirings.length)
    (hw : w ∈ wirings) (hread : p ∈ reads wirings w) : p < wirings.length := by
  rcases mem_reads_iff.1 hread with hsource | ⟨-, q, -, v, hv, hsource⟩
  · exact hrange w hw p hsource
  · exact hrange v (List.mem_of_getElem? hv) p hsource

/-- The pass collects the dependents. The list of a node rises strictly and has those nodes that
have it as a source, and the count gates that have a source of which it is a source. So in a graph
that has these lists, a node whose answer changes when another opens is a dependent of that one. -/
theorem dependents_reverse (hrange : ∀ v ∈ wirings, ∀ p ∈ v.sources, p < wirings.length) :
    collect wirings = dependents wirings ∧ (dependents wirings).length = wirings.length ∧
    (∀ (p : NodeId) (ids : List NodeId), (dependents wirings)[p]? = some ids →
      ids.Pairwise (· < ·) ∧ ∀ d, d ∈ ids ↔ ∃ w : Wiring, wirings[d]? = some w ∧ (p ∈ w.sources ∨
        w.kind.isCount = true ∧ ∃ q ∈ w.sources, ∃ v, wirings[q]? = some v ∧ p ∈ v.sources)) ∧
    ∀ g : Graph, g.nodes.map GraphNode.wiring = wirings → g.dependents = dependents wirings →
      ∀ (difficulty : Difficulty) (isOpen : NodeId → Bool) (p d : NodeId),
        g.reader.holds difficulty (fun q => q == p || isOpen q) d ≠
          g.reader.holds difficulty isOpen d → d ∈ g.dependentsOf p := by
  refine ⟨collect_eq wirings, by simp [dependents], ?_, ?_⟩
  · intro p ids hids
    rw [getElem?_dependents, Option.ite_none_right_eq_some] at hids
    obtain ⟨hp, hids⟩ := hids
    rw [← Option.some.inj hids]
    refine ⟨pairwise_dependents wirings p, fun d => ?_⟩
    rw [mem_dependents_iff, and_iff_right hp]
    simp only [mem_reads_iff]
  · rintro g rfl hdependents difficulty isOpen p d hne
    obtain ⟨node, hnode, hread⟩ := Graph.exists_reads_of_holds_ne hne
    have hmem : node.wiring ∈ g.nodes.map GraphNode.wiring :=
      List.mem_map_of_mem (List.mem_of_getElem? hnode)
    have hp := lt_of_mem_reads hrange hmem hread
    rw [List.length_map] at hp
    exact (Graph.mem_dependentsOf_iff hdependents).2 ⟨hp, node, hnode, hread⟩

/-- Node 2 counts the producers of node 1, one of which is named twice and one is a placement. -/
def countWirings : List Wiring :=
  [⟨.root, [], []⟩, ⟨.or, [0, 0], [3]⟩, ⟨.count 2, [1], []⟩, ⟨.andSlot, [2], []⟩]

theorem dependents_reverse_count :
    (∀ v ∈ countWirings, ∀ p ∈ v.sources, p < countWirings.length) ∧
      collect countWirings = dependents countWirings ∧
      dependents countWirings = [[1, 2], [2], [3], [1, 2]] ∧
      ∀ ids, (dependents countWirings)[3]? = some ids → 2 ∈ ids := by
  have hrange : ∀ v ∈ countWirings, ∀ p ∈ v.sources, p < countWirings.length := by decide
  obtain ⟨hcollect, -, hlists, -⟩ := dependents_reverse hrange
  refine ⟨hrange, hcollect, by cbv, fun ids hids => ?_⟩
  exact ((hlists 3 ids hids).2 2).2 ⟨_, rfl, .inr ⟨rfl, 1, by decide, _, rfl, by decide⟩⟩

end Wiring

end Progression

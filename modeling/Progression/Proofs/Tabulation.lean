import Mathlib.Data.List.Perm.Basic
import Progression.Flatten
import Progression.Proofs.Linking

/-!
The table of flat rules. Names of rules are given symbols first, then each rule becomes the
node of its name. In the end the table has one node for each rule and no other node, and
every name without a node is mentioned by a rule.
-/

namespace Progression

/-- The rule as a node, before anything is placed. -/
def FlatRule.toNamed (r : FlatRule) : NamedNode :=
  ⟨r.kind, r.parents, [], r.source, r.placeable⟩

namespace Flatten

open FlatTable

variable {table : FlatTable}

/-! ### One rule -/

/-- A rule's name and its parents have symbols before the node is made. -/
def withRule (table : FlatTable) (r : FlatRule) : FlatTable :=
  ((table.intern r.name).1.internAll r.parents).1

def parentsOf (table : FlatTable) (r : FlatRule) : List Symbol :=
  ((table.intern r.name).1.internAll r.parents).2

theorem addRule_eq (table : FlatTable) (r : FlatRule) :
    addRule table r = (withRule table r).define (table.intern r.name).2
      ⟨r.kind, parentsOf table r, [], r.source, r.placeable⟩ := rfl

theorem symbol_lt_withRule (table : FlatTable) (r : FlatRule) :
    (table.intern r.name).2 < (withRule table r).symbols.size :=
  Nat.lt_of_lt_of_le (lt_intern _ _)
    (SymbolTable.size_le_of_isPrefix (prefix_vocabulary_internAll _ _))

@[simp] theorem name_withRule (table : FlatTable) (r : FlatRule) :
    (withRule table r).name (table.intern r.name).2 = r.name :=
  (SymbolTable.name_of_isPrefix (prefix_vocabulary_internAll _ _) (lt_intern _ _)).trans
    (name_intern _ _)

theorem wellFormed_withRule (h : table.WellFormed) (r : FlatRule) :
    (withRule table r).WellFormed :=
  WellFormed.internAll r.parents (h.intern r.name)

theorem named?_withRule (h : table.WellFormed) (r : FlatRule) :
    (withRule table r).named? = table.named? :=
  (named?_internAll r.parents (h.intern r.name)).trans (named?_intern h r.name)

@[simp] theorem mem_vocabulary_withRule {name : String} (r : FlatRule) :
    name ∈ (withRule table r).vocabulary ↔
      name ∈ r.parents ∨ name = r.name ∨ name ∈ table.vocabulary := by
  rw [withRule, mem_vocabulary_internAll, mem_vocabulary_intern]

@[simp] theorem toNamed_withRule (table : FlatTable) (r : FlatRule) :
    (withRule table r).toNamed ⟨r.kind, parentsOf table r, [], r.source, r.placeable⟩ =
      r.toNamed := by
  have hparents : (parentsOf table r).map (withRule table r).name = r.parents :=
    map_name_internAll r.parents _
  rw [toNamed, FlatRule.toNamed, hparents]
  rfl

theorem wellFormed_addRule (h : table.WellFormed) (r : FlatRule) :
    (addRule table r).WellFormed := by
  rw [addRule_eq]
  refine (wellFormed_withRule h r).define (symbol_lt_withRule table r) ?_ List.nodup_nil
  intro p hp
  rw [FlatNode.sources, List.append_nil] at hp
  exact lt_internAll r.parents _ p hp

/-- A rule becomes the node of its name. -/
theorem named?_addRule (h : table.WellFormed) (r : FlatRule) (name : String) :
    (addRule table r).named? name =
      if name = r.name then some r.toNamed else table.named? name := by
  rw [addRule_eq, named?_define (wellFormed_withRule h r) (symbol_lt_withRule table r),
    name_withRule, toNamed_withRule, named?_withRule h]

@[simp] theorem mem_vocabulary_addRule {name : String} (r : FlatRule) :
    name ∈ (addRule table r).vocabulary ↔
      name ∈ r.parents ∨ name = r.name ∨ name ∈ table.vocabulary := by
  rw [addRule_eq]
  exact mem_vocabulary_withRule r

@[simp] theorem stats_addRule (table : FlatTable) (r : FlatRule) :
    (addRule table r).stats = table.stats := by
  rw [addRule_eq]
  exact (stats_internAll r.parents _).trans (stats_intern table r.name)

/-- Names that wait for their rule no longer do once it is there. -/
theorem covered_addRule {r : FlatRule} {pending : List String}
    (hcovered : table.Covered (r.name :: pending)) (h : table.WellFormed)
    (hnew : table.named? r.name = none) : (addRule table r).Covered pending := by
  intro name hmem hnone
  rw [named?_addRule h] at hnone
  split at hnone
  case isTrue => contradiction
  case isFalse hother =>
      -- Parents are mentioned by the rule itself; other names were covered before.
      rcases (mem_vocabulary_addRule r).1 hmem with hparent | heq | hold
      · refine Or.inr ⟨r.name, r.toNamed, by rw [named?_addRule h, if_pos rfl], ?_⟩
        exact List.mem_append_left _ hparent
      · exact absurd heq hother
      · rcases hcovered name hold hnone with hwait | ⟨other, node, hnode, hmention⟩
        · exact Or.inl ((List.mem_cons.1 hwait).resolve_left hother)
        · refine Or.inr ⟨other, node, ?_, hmention⟩
          rw [named?_addRule h, if_neg (fun heq => ?_), hnode]
          rw [heq, hnew] at hnode
          contradiction

/-! ### All rules -/

/-- Gives symbols to the names of rules. -/
def internNames (table : FlatTable) (rules : List FlatRule) : FlatTable :=
  rules.foldl (fun t r => (t.intern r.name).1) table

theorem ofRules_eq (rules : List FlatRule) (stats : FlattenStats) :
    ofRules rules stats = rules.foldl addRule (internNames { stats } rules) := rfl

theorem internNames_spec (rules : List FlatRule) {table : FlatTable} (h : table.WellFormed) :
    (internNames table rules).WellFormed ∧
      (internNames table rules).named? = table.named? ∧
      (internNames table rules).stats = table.stats ∧
      ∀ name, name ∈ (internNames table rules).vocabulary ↔
        name ∈ rules.map FlatRule.name ∨ name ∈ table.vocabulary := by
  induction rules generalizing table with
  | nil => exact ⟨h, rfl, rfl, fun name => by simp [internNames]⟩
  | cons r rules ih =>
      obtain ⟨hwell, hnamed, hstats, hvocabulary⟩ := ih (h.intern r.name)
      refine ⟨hwell, hnamed.trans (named?_intern h _), hstats.trans (stats_intern _ _), ?_⟩
      intro name
      refine (hvocabulary name).trans ?_
      rw [mem_vocabulary_intern, List.map_cons, List.mem_cons]
      tauto

/-- Adding rules with names of their own to a table that waits for these names. -/
theorem addRules_spec (rules : List FlatRule) {table : FlatTable} (h : table.WellFormed)
    (hnodup : (rules.map FlatRule.name).Nodup)
    (hnew : ∀ r ∈ rules, table.named? r.name = none)
    (hcovered : table.Covered (rules.map FlatRule.name)) :
    (rules.foldl addRule table).WellFormed ∧ (rules.foldl addRule table).Covered [] ∧
      (rules.foldl addRule table).stats = table.stats ∧
      ∀ name node, (rules.foldl addRule table).named? name = some node ↔
        (∃ r ∈ rules, r.name = name ∧ r.toNamed = node) ∨ table.named? name = some node := by
  induction rules generalizing table with
  | nil => exact ⟨h, hcovered, rfl, fun name node => by simp⟩
  | cons r rules ih =>
      rw [List.map_cons, List.nodup_cons] at hnodup
      have hfirst := hnew r List.mem_cons_self
      have hother : ∀ q ∈ rules, q.name ≠ r.name :=
        fun q hq heq => hnodup.1 (heq ▸ List.mem_map_of_mem hq)
      have hnew' : ∀ q ∈ rules, (addRule table r).named? q.name = none := by
        intro q hq
        rw [named?_addRule h, if_neg (hother q hq)]
        exact hnew q (List.mem_cons_of_mem r hq)
      -- Later rules find their names still waiting, for no name comes twice.
      obtain ⟨hwell, hcov, hstats, hnamed⟩ := ih (wellFormed_addRule h r) hnodup.2 hnew'
        (covered_addRule hcovered h hfirst)
      refine ⟨hwell, hcov, hstats.trans (stats_addRule table r), fun name node => ?_⟩
      rw [List.foldl_cons, hnamed, named?_addRule h]
      simp only [List.mem_cons, exists_eq_or_imp]
      split
      case isTrue heq =>
          rw [heq, hfirst, Option.some.injEq]
          simp only [true_and, reduceCtorEq, or_false]
          exact or_comm
      case isFalse hne =>
          simp only [Ne.symm hne, false_and, false_or]

/-- The table of rules with names of their own. -/
theorem ofRules_spec {rules : List FlatRule} (stats : FlattenStats)
    (hnodup : (rules.map FlatRule.name).Nodup) :
    (ofRules rules stats).WellFormed ∧ (ofRules rules stats).Covered [] ∧
      (ofRules rules stats).stats = stats ∧
      ∀ name node, (ofRules rules stats).named? name = some node ↔
        ∃ r ∈ rules, r.name = name ∧ r.toNamed = node := by
  obtain ⟨hwell, hnamed, hstats, hvocabulary⟩ := internNames_spec rules (wellFormed_empty stats)
  have hnone : ∀ name, (internNames { stats } rules).named? name = none := by
    intro name
    rw [hnamed]
    rfl
  have hcovered : (internNames { stats } rules).Covered (rules.map FlatRule.name) := by
    intro name hmem _
    exact Or.inl (((hvocabulary name).1 hmem).resolve_right List.not_mem_nil)
  obtain ⟨hwell', hcovered', hstats', hnamed'⟩ :=
    addRules_spec rules hwell hnodup (fun r _ => hnone r.name) hcovered
  refine ⟨hwell', hcovered', hstats'.trans hstats, fun name node => ?_⟩
  rw [ofRules_eq, hnamed', hnone]
  simp

/-- The entries of a table whose nodes are some rules. -/
theorem entries_perm_of_named? {rules : List FlatRule} (h : table.WellFormed)
    (hnodup : (rules.map FlatRule.name).Nodup)
    (hnamed : ∀ name node, table.named? name = some node ↔
      ∃ r ∈ rules, r.name = name ∧ r.toNamed = node) :
    table.entries.Perm (rules.map fun r => (r.name, r.toNamed)) := by
  have hkeys : ((rules.map fun r => (r.name, r.toNamed)).map Prod.fst).Nodup := by
    rw [List.map_map]
    exact hnodup
  rw [List.perm_ext_iff_of_nodup h.nodup_entries.of_map hkeys.of_map]
  rintro ⟨name, node⟩
  rw [h.mem_entries_iff, hnamed, List.mem_map]
  exact exists_congr fun r => and_congr_right fun _ => by rw [Prod.mk.injEq]

end Flatten

end Progression

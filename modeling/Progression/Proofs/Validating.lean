import Progression.Compiler
import Progression.Proofs.Flattening
import Progression.Proofs.Sorting

/-!
What validation finds. The report lists the faults of a table, in order and once each. They
are read by name here: a node is faulty because of its own parents, or because no node mentions
it and no rule of the policy matches it.
-/

namespace Progression

/-- The order in which the rules of a policy are tried does not matter to what is exempt. -/
theorem Policy.isExempt_eq_true_iff {policy : Policy} {name : String} :
    policy.isExempt name = true ↔ ∃ rule ∈ policy.rules, rule.isMatch name = true := by
  have hlisted : name ∈ policy.names ↔
      ∃ s ∈ policy.names, (Exemption.name s).isMatch name = true := by
    simp [Exemption.isMatch]
  rw [isExempt, exemptionFor?]
  by_cases hname : name ∈ policy.names
  · rw [if_pos hname]
    obtain ⟨s, hs, hmatch⟩ := hlisted.1 hname
    exact iff_of_true rfl ⟨.name s, by simp [rules, hs], hmatch⟩
  · have hnone : ¬ ∃ s ∈ policy.names, (Exemption.name s).isMatch name = true :=
      fun h => hname (hlisted.2 h)
    rw [if_neg hname]
    simp only [Option.isSome_or, List.find?_isSome, Bool.or_eq_true, rules, List.mem_append,
      or_and_right, exists_or, List.mem_map, exists_exists_and_eq_and, hnone, false_or, or_assoc]

theorem Policy.isExempt_eq_false_iff {policy : Policy} {name : String} :
    policy.isExempt name = false ↔ ∀ rule ∈ policy.rules, rule.isMatch name = false := by
  simp only [← Bool.not_eq_true, isExempt_eq_true_iff, not_exists, not_and]

namespace Issue

def key (issue : Issue) : String ×ₗ Nat ×ₗ String :=
  toLex (issue.node, toLex (issue.kind.rank, issue.source))

/-- By node, then by kind. -/
def Before (a b : Issue) : Prop :=
  a.node < b.node ∨ a.node = b.node ∧ a.kind.rank < b.kind.rank

theorem rank_injective : Function.Injective IssueKind.rank := by
  intro a b h
  cases a <;> cases b <;> first | rfl | contradiction

theorem le_eq_true_iff (a b : Issue) : a.le b = true ↔ a.key ≤ b.key := by
  rw [key, key, Prod.Lex.toLex_le_toLex, Prod.Lex.toLex_le_toLex, le]
  by_cases hnode : a.node = b.node
  · by_cases hkind : a.kind = b.kind
    · simp [hnode, hkind]
    · have hrank : a.kind.rank ≠ b.kind.rank := fun h => hkind (rank_injective h)
      simp [hnode, hkind, hrank, le_iff_lt_or_eq]
  · simp [hnode, le_iff_lt_or_eq]

/-- Sources decide nothing between issues of different nodes or kinds. -/
theorem before_of_key_le {a b : Issue} (hle : a.key ≤ b.key)
    (hne : (a.node, a.kind) ≠ (b.node, b.kind)) : a.Before b := by
  rw [key, key, Prod.Lex.toLex_le_toLex, Prod.Lex.toLex_le_toLex] at hle
  rcases hle with hnode | ⟨hnode, hrank | ⟨hrank, -⟩⟩
  · exact Or.inl hnode
  · exact Or.inr ⟨hnode, hrank⟩
  · exact absurd (congrArg₂ Prod.mk hnode (rank_injective hrank)) hne

end Issue

namespace FlatTable

variable {table : FlatTable} {policy : Policy} {issue : Issue}

/-- The faults that a table has, read by name. -/
inductive HasIssue (table : FlatTable) (policy : Policy) : Issue → Prop
  | missingParents {name : String} {node : NamedNode} : table.named? name = some node →
      node.kind.isRoot = false → node.parents = [] →
      HasIssue table policy ⟨name, .missingParents, node.source⟩
  | deadEnd {name : String} {node : NamedNode} : table.named? name = some node →
      node.kind.isSlot = false → name ∉ table.mentions → policy.isExempt name = false →
      HasIssue table policy ⟨name, .deadEnd, node.source⟩

/-- The symbols that are referenced are those of the names that are mentioned. -/
theorem WellFormed.referenced_contains_iff (h : table.WellFormed) {s : Symbol}
    (hs : s < table.symbols.size) :
    table.referenced.contains s = true ↔ table.name s ∈ table.mentions := by
  have hname : ∀ t node, table.node? t = some node →
      (table.name s ∈ node.parents.map table.name ↔ s ∈ node.parents) := by
    intro t node hnode
    exact h.name_mem_map_iff
      (fun p hp => h.sources_lt t node hnode p (List.mem_append_left _ hp)) hs
  rw [referenced, Std.TreeSet.contains_ofList, List.contains_iff_mem, List.mem_flatMap,
    h.mem_mentions_iff]
  constructor
  · rintro ⟨⟨t, node⟩, hmem, hparent⟩
    have hnode := mem_defined_iff.1 hmem
    refine ⟨table.name t, table.toNamed node, ?_, (hname t node hnode).2 hparent⟩
    rw [h.named?_name (h.lt_of_node? hnode), hnode]
    rfl
  · rintro ⟨other, node, hnamed, hmention⟩
    obtain ⟨t, n, hnode, -, rfl⟩ := h.named?_eq_some_iff.1 hnamed
    exact ⟨(t, n), mem_defined_iff.2 hnode, (hname t n hnode).1 hmention⟩

theorem mem_issuesOf_iff {isReferenced : Bool} {s : Symbol} {node : FlatNode} :
    issue ∈ table.issuesOf policy isReferenced s node ↔
      (node.kind.isRoot = false ∧ node.parents = [] ∧
        issue = ⟨table.name s, .missingParents, node.source⟩) ∨
      (node.kind.isSlot = false ∧ isReferenced = false ∧ policy.isExempt (table.name s) = false ∧
        issue = ⟨table.name s, .deadEnd, node.source⟩) := by
  simp only [issuesOf, List.mem_append, List.mem_ite_nil_right, List.mem_singleton,
    Bool.and_eq_true, Bool.not_eq_true', List.isEmpty_iff, and_assoc]

theorem WellFormed.mem_issues_iff (h : table.WellFormed) :
    issue ∈ table.issues policy ↔ table.HasIssue policy issue := by
  rw [issues, List.mem_mergeSort, List.mem_flatMap]
  constructor
  · rintro ⟨⟨s, node⟩, hmem, hissue⟩
    have hnode := mem_defined_iff.1 hmem
    have hs := h.lt_of_node? hnode
    have hnamed : table.named? (table.name s) = some (table.toNamed node) := by
      rw [h.named?_name hs, hnode]
      rfl
    rcases mem_issuesOf_iff.1 hissue with ⟨hroot, hparents, rfl⟩ | ⟨hslot, hfree, hexempt, rfl⟩
    · exact .missingParents hnamed hroot (List.map_eq_nil_iff.2 hparents)
    · refine .deadEnd hnamed hslot (fun hmention => ?_) hexempt
      rw [(h.referenced_contains_iff hs).2 hmention] at hfree
      contradiction
  · intro hissue
    cases hissue with
    | @missingParents name node hnamed hroot hparents =>
        obtain ⟨s, n, hnode, rfl, rfl⟩ := h.named?_eq_some_iff.1 hnamed
        refine ⟨(s, n), mem_defined_iff.2 hnode, mem_issuesOf_iff.2 (Or.inl ?_)⟩
        exact ⟨hroot, List.map_eq_nil_iff.1 hparents, rfl⟩
    | @deadEnd name node hnamed hslot hmention hexempt =>
        obtain ⟨s, n, hnode, rfl, rfl⟩ := h.named?_eq_some_iff.1 hnamed
        have hfree : table.referenced.contains s = false := by
          rw [← Bool.not_eq_true, h.referenced_contains_iff (h.lt_of_node? hnode)]
          exact hmention
        refine ⟨(s, n), mem_defined_iff.2 hnode, mem_issuesOf_iff.2 (Or.inr ?_)⟩
        exact ⟨hslot, hfree, hexempt, rfl⟩

/-- The faults of one node differ in kind, and those of different nodes in name. -/
theorem WellFormed.nodup_issues (h : table.WellFormed) :
    ((table.issues policy).map fun issue => (issue.node, issue.kind)).Nodup := by
  rw [issues, ((List.mergeSort_perm _ _).map _).nodup_iff, List.map_flatMap, List.nodup_flatMap]
  constructor
  · rintro ⟨s, node⟩ -
    simp only [issuesOf]
    split <;> split <;> simp
  · have hnames : table.defined.Pairwise fun a b => table.name a.1 ≠ table.name b.1 := by
      have hnodup := h.nodup_entries
      rw [entries, List.map_map] at hnodup
      exact List.pairwise_map.1 hnodup
    refine hnames.imp fun {a b} hne => ?_
    -- Both lists of faults bear the name of their node.
    have hnode : ∀ {isReferenced s node x},
        x ∈ (table.issuesOf policy isReferenced s node).map
            (fun issue => (issue.node, issue.kind)) →
          x.1 = table.name s := by
      intro isReferenced s node x hx
      obtain ⟨issue, hissue, rfl⟩ := List.mem_map.1 hx
      rcases mem_issuesOf_iff.1 hissue with ⟨-, -, rfl⟩ | ⟨-, -, -, rfl⟩ <;> rfl
    intro x hxa hxb
    exact hne ((hnode hxa).symm.trans (hnode hxb))

theorem WellFormed.pairwise_issues (h : table.WellFormed) :
    (table.issues policy).Pairwise Issue.Before := by
  have hsorted : (table.issues policy).Pairwise fun a b => a.key ≤ b.key :=
    pairwise_mergeSort_key Issue.le_eq_true_iff _
  have hdiffer : (table.issues policy).Pairwise fun a b =>
      (a.node, a.kind) ≠ (b.node, b.kind) := List.pairwise_map.1 h.nodup_issues
  exact (hsorted.and hdiffer).imp fun {a b} hab => Issue.before_of_key_le hab.1 hab.2

theorem WellFormed.validate_eq_ok_iff (h : table.WellFormed) :
    table.validate policy = .ok () ↔ ∀ issue, ¬ table.HasIssue policy issue := by
  simp only [← h.mem_issues_iff, ← List.eq_nil_iff_forall_not_mem, validate]
  split <;> simp_all

theorem WellFormed.validate_eq_error_iff (h : table.WellFormed) {report : Report} :
    table.validate policy = .error report ↔
      (∃ issue, table.HasIssue policy issue) ∧ report = ⟨table.issues policy⟩ := by
  have hsome : (∃ issue, table.HasIssue policy issue) ↔ table.issues policy ≠ [] := by
    simp only [← h.mem_issues_iff, ne_eq, List.eq_nil_iff_forall_not_mem, not_forall, not_not]
  rw [hsome, validate]
  by_cases hnil : table.issues policy = []
  · simp [hnil]
  · have hsome' : (table.issues policy).isEmpty = false := by simp [hnil]
    simp only [hsome', Bool.false_eq_true, if_false, ne_eq, hnil, not_false_eq_true, true_and,
      Except.error.injEq]
    exact eq_comm

end FlatTable

/-- Once tables merge, only validation decides. -/
theorem Compiler.compile_eq_validate {c : Compiler} {book : Rulebook} {table : FlatTable}
    (hmerge : Rulebook.ofTables c.tables = .ok book)
    (hflatten : book.flatten? c.maxRounds = some table) (journal : Journal) :
    (c.compile.run journal).1 =
      match table.validate c.policy with
      | .error report => .error (.validation report)
      | .ok () => .ok ⟨table, c.policy.unused table, c.sink⟩ := by
  show c.outcome.1 = _
  cases hvalid : table.validate c.policy <;> simp only [outcome, hmerge, hflatten, hvalid]

end Progression

import Progression.Proofs.Building
import Progression.Proofs.Expressions
import Progression.Proofs.Validating

/-!
What is wrong with rules as they are written. Main statement: compiling tables that merge fails
exactly if there is something wrong with them, and the report lists exactly that.

Names that flattening gives are no names of rules and are mentioned by the node around them, so
that they neither hide a rule that nothing mentions nor are dead ends themselves.
-/

namespace Progression

/-- The rules of all tables. -/
def Compiler.rules (c : Compiler) : List Rule :=
  c.tables.flatMap Table.rules

/-- The defects of rules, where `given` are the gates that were given a name. -/
inductive IsDefect (policy : Policy) (rules : List Rule) (given : List Expression) : Issue → Prop
  | missingParents {e : Expression} : e ∈ expressions rules given →
      e.gate.kind.isRoot = false → e.gate.parents = [] →
      IsDefect policy rules given ⟨e.name, .missingParents, e.rule.source⟩
  | deadEnd {r : Rule} : r ∈ rules → r.gate.kind.isSlot = false →
      (∀ q ∈ rules, ¬ q.gate.Mentions r.name) →
      (∀ exemption ∈ policy.rules, exemption.isMatch r.name = false) →
      IsDefect policy rules given ⟨r.name, .deadEnd, r.source⟩

/-- Dead ends are rules that no rule mentions. -/
theorem IsDefect.of_deadEnd {policy : Policy} {rules : List Rule} {given : List Expression}
    {issue : Issue} (h : IsDefect policy rules given issue) (hkind : issue.kind = .deadEnd) :
    (∃ r ∈ rules, r.name = issue.node) ∧ ∀ q ∈ rules, ¬ q.gate.Mentions issue.node := by
  cases h with
  | missingParents => contradiction
  | deadEnd hr _ hmention _ => exact ⟨⟨_, hr, rfl⟩, hmention⟩

namespace FlatTable.Expresses

variable {table : FlatTable} {rules : List Rule} {given : List Expression} {policy : Policy}

/-- The faults of the table are the defects of the rules. -/
theorem hasIssue_iff (h : table.Expresses rules given) (hwell : table.WellFormed)
    {issue : Issue} : table.HasIssue policy issue ↔ IsDefect policy rules given issue := by
  constructor
  · intro hissue
    cases hissue with
    | missingParents hnode hroot hparents =>
        obtain ⟨e, he, rfl, hkind, hsource, hstands⟩ := h.exists_expression_of_named? hwell hnode
        rw [hparents, List.forall₂_nil_left_iff] at hstands
        rw [hsource]
        exact .missingParents he (hkind ▸ hroot) hstands
    | deadEnd hnode hslot hmention hexempt =>
        obtain ⟨e, he, rfl, hkind, hsource, -⟩ := h.exists_expression_of_named? hwell hnode
        rw [h.mem_mentions_iff hwell, not_or] at hmention
        rcases mem_expressions.1 he with ⟨r, hr, rfl⟩ | hgiven
        · rw [hsource]
          exact .deadEnd hr (hkind ▸ hslot) (fun q hq hname => hmention.1 ⟨q, hq, hname⟩)
            (Policy.isExempt_eq_false_iff.1 hexempt)
        · exact absurd ⟨e, hgiven, rfl⟩ hmention.2
  · intro hdefect
    cases hdefect with
    | @missingParents e he hroot hparents =>
        obtain ⟨node, hnode, hkind, hsource, hstands⟩ := h.exists_node e he
        rw [hparents, List.forall₂_nil_right_iff] at hstands
        rw [← hsource]
        exact .missingParents hnode (hkind ▸ hroot) hstands
    | @deadEnd r hr hslot hmention hmatch =>
        obtain ⟨node, hnode, hkind, hsource, -⟩ :=
          h.exists_node r.expression (Rule.expression_mem hr)
        have hsource' : r.source = node.source := hsource.symm
        rw [hsource']
        refine .deadEnd hnode (hkind ▸ hslot) ?_ (Policy.isExempt_eq_false_iff.2 hmatch)
        rw [h.mem_mentions_iff hwell]
        rintro (⟨q, hq, hname⟩ | ⟨e, he, hname⟩)
        · exact hmention q hq hname
        · exact h.name_ne_of_given hr he hname.symm

end FlatTable.Expresses

/-! ### Main statement -/

/-- What is reported of a compiler's rules, where `given` are the gates that were given a
name. -/
structure Report.IsExact (report : Report) (c : Compiler) (given : List Expression) : Prop where
  sorted : report.issues.Pairwise Issue.Before
  mem_iff : ∀ issue, issue ∈ report.issues ↔ IsDefect c.policy c.rules given issue
  not_deadEnd : ∀ e ∈ given, ∀ source, ⟨e.name, .deadEnd, source⟩ ∉ report.issues
  /-- The source is the table that defines the rule around. -/
  source : ∀ issue ∈ report.issues, ∃ e ∈ expressions c.rules given, ∃ t ∈ c.tables,
    e.name = issue.node ∧ (e.rule.name, e.rule.gate) ∈ t.entries ∧ issue.source = t.name

namespace Compiler

variable {c : Compiler} {book : Rulebook}

/-- Tables that merge flatten to their expressions. -/
theorem exists_expresses (hmerge : Rulebook.ofTables c.tables = .ok book) :
    ∃ table given, book.flatten? c.maxRounds = some table ∧ table.WellFormed ∧
      table.Expresses c.rules given := by
  have hnodup := Rulebook.names_nodup hmerge
  obtain ⟨table, hflatten, h⟩ := Rulebook.exists_tabulates hnodup c.maxRounds
  exact ⟨table, book.given, hflatten, h.wellFormed,
    h.expresses hnodup (Rulebook.rules_perm hmerge)⟩

/-- The report of a table lists the defects of the rules that it comes from. -/
theorem isExact_issues {table : FlatTable} {given : List Expression} (hwell : table.WellFormed)
    (h : table.Expresses c.rules given) :
    Report.IsExact ⟨table.issues c.policy⟩ c given := by
  have hmem : ∀ issue, issue ∈ table.issues c.policy ↔ IsDefect c.policy c.rules given issue :=
    fun issue => by rw [hwell.mem_issues_iff, h.hasIssue_iff hwell]
  refine ⟨hwell.pairwise_issues, hmem, ?_, ?_⟩
  · intro e he source hissue
    obtain ⟨⟨r, hr, hname⟩, -⟩ := ((hmem _).1 hissue).of_deadEnd rfl
    exact h.name_ne_of_given hr he hname
  · intro issue hissue
    obtain ⟨e, he, hname, hsource⟩ : ∃ e ∈ expressions c.rules given,
        e.name = issue.node ∧ issue.source = e.rule.source := by
      cases (hmem issue).1 hissue with
      | missingParents he => exact ⟨_, he, rfl, rfl⟩
      | @deadEnd r hr => exact ⟨r.expression, Rule.expression_mem hr, rfl, rfl⟩
    obtain ⟨t, ht, hentry, htable, -⟩ :=
      Rulebook.exists_table_of_mem_flatMap (h.mem_of_expression he).1
    exact ⟨e, he, t, ht, hname, hentry, hsource.trans htable⟩

/-- Compiling tables that merge reports exactly what is wrong with their rules. -/
theorem exists_compile_isExact (hmerge : Rulebook.ofTables c.tables = .ok book)
    (journal : Journal) :
    ∃ table given, book.flatten? c.maxRounds = some table ∧ table.Expresses c.rules given ∧
      ((∃ report, (c.compile.run journal).1 = .error (.validation report)) ↔
        ∃ issue, IsDefect c.policy c.rules given issue) ∧
      ((¬ ∃ issue, IsDefect c.policy c.rules given issue) →
        (c.compile.run journal).1 = .ok ⟨table, c.policy.unused table, c.sink⟩) ∧
      ∀ report, (c.compile.run journal).1 = .error (.validation report) →
        report.IsExact c given := by
  obtain ⟨table, given, hflatten, hwell, h⟩ := exists_expresses hmerge
  have hdefect : (∃ issue, table.HasIssue c.policy issue) ↔
      ∃ issue, IsDefect c.policy c.rules given issue := by simp only [h.hasIssue_iff hwell]
  have herror : ∀ report, (c.compile.run journal).1 = .error (.validation report) ↔
      table.validate c.policy = .error report := by
    intro report
    rw [compile_eq_validate hmerge hflatten]
    cases table.validate c.policy <;> simp
  refine ⟨table, given, hflatten, h, ?_, ?_, ?_⟩
  · simp only [herror, hwell.validate_eq_error_iff, exists_and_left, exists_eq, and_true, hdefect]
  · intro hnone
    have hvalid : table.validate c.policy = .ok () := by
      rw [hwell.validate_eq_ok_iff, ← not_exists, hdefect]
      exact hnone
    rw [compile_eq_validate hmerge hflatten, hvalid]
  · intro report hreport
    obtain ⟨-, rfl⟩ := hwell.validate_eq_error_iff.1 ((herror report).1 hreport)
    exact isExact_issues hwell h

end Compiler

/-- Shrine `s` asks for a gate that nothing opens and is mentioned nowhere; chest `c` has no
parents. -/
def shrineCompiler : Compiler where
  tables := [⟨"w", false, [("s", ⟨.and, [.inline .or []]⟩)]⟩,
    ⟨"i", false, [("c", ⟨.orSlot, []⟩)]⟩]

def shrineBook : Rulebook :=
  ⟨[⟨"c", ⟨.orSlot, []⟩, "i", false⟩, ⟨"s", ⟨.and, [.inline .or []]⟩, "w", false⟩]⟩

def shrineReport : Report :=
  ⟨[⟨"c", .missingParents, "i"⟩, ⟨"s", .deadEnd, "w"⟩, ⟨"s 1", .missingParents, "w"⟩]⟩

theorem exists_compile_isExact_shrine :
    Rulebook.ofTables shrineCompiler.tables = .ok shrineBook ∧
      (shrineCompiler.compile.run {}).1 = .error (.validation shrineReport) ∧
      ∃ given, shrineReport.IsExact shrineCompiler given := by
  have hmerge : Rulebook.ofTables shrineCompiler.tables = .ok shrineBook := by cbv
  have hreport : (shrineCompiler.compile.run {}).1 = .error (.validation shrineReport) := by cbv
  obtain ⟨_, given, -, -, -, -, hexact⟩ := Compiler.exists_compile_isExact hmerge {}
  exact ⟨hmerge, hreport, given, hexact shrineReport hreport⟩

end Progression

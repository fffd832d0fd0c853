import Progression.Proofs.Defects

/-!
What validation leaves behind. Once tables are compiled, every node that is no slot and that no
rule of the policy matches is a parent of some node. Main statement: it is a parent of another
node unless its rule names itself and nothing else does, and such a rule is never reported.
-/

namespace Progression

/-- A gate inside the rule mentions its name, or another rule does. -/
def Rule.IsMentionedElsewhere (rules : List Rule) (r : Rule) : Prop :=
  (∃ gate ∈ r.gate.inner, .named r.name ∈ gate.parents) ∨
    ∃ q ∈ rules, q.name ≠ r.name ∧ q.gate.Mentions r.name

/-- The rule is a parent of itself, and nothing else mentions it. -/
def Rule.IsOwnParentOnly (rules : List Rule) (r : Rule) : Prop :=
  .named r.name ∈ r.gate.parents ∧ ¬ r.IsMentionedElsewhere rules

instance (rules : List Rule) (r : Rule) : Decidable (r.IsMentionedElsewhere rules) :=
  inferInstanceAs (Decidable ((∃ gate ∈ r.gate.inner, .named r.name ∈ gate.parents) ∨
    ∃ q ∈ rules, q.name ≠ r.name ∧ q.gate.Mentions r.name))

instance (rules : List Rule) (r : Rule) : Decidable (r.IsOwnParentOnly rules) :=
  inferInstanceAs (Decidable (.named r.name ∈ r.gate.parents ∧ ¬ r.IsMentionedElsewhere rules))

/-- No gate holds itself. -/
theorem Gate.inline_notMem_parents (gate : Gate) : gate.inline ∉ gate.parents := by
  intro hmem
  have hdepth := Parent.depth_le_depthAll hmem
  rw [Gate.inline, Parent.depth] at hdepth
  omega

namespace FlatTable.Expresses

variable {table : FlatTable} {rules : List Rule} {given : List Expression} {name : String}

theorem nodup_rules (h : table.Expresses rules given) : (rules.map Rule.name).Nodup := by
  have hnodup := h.nodup
  rw [expressions, List.map_append, List.map_map] at hnodup
  exact hnodup.of_append_left

theorem eq_of_name_eq (h : table.Expresses rules given) {q r : Rule} (hq : q ∈ rules)
    (hr : r ∈ rules) (hname : q.name = r.name) : q = r :=
  List.inj_on_of_nodup_map h.nodup_rules hq hr hname

/-- The gate around a gate has another name. -/
theorem exists_other_of_given (h : table.Expresses rules given) (hwell : table.WellFormed)
    {e : Expression} (he : e ∈ given) :
    ∃ other, other ≠ e.name ∧ table.IsParent e.name other := by
  have hmention : e.name ∈ table.mentions := (h.mem_mentions_iff hwell).2 (Or.inr ⟨e, he, rfl⟩)
  obtain ⟨other, node, hnode, hmem⟩ := hwell.mem_mentions_iff.1 hmention
  obtain ⟨owner, howner, rfl, -⟩ := h.exists_expression_of_named? hwell hnode
  refine ⟨owner.name, fun hsame => ?_, node, hnode, hmem⟩
  obtain rfl : owner = e :=
    List.inj_on_of_nodup_map h.nodup howner (mem_expressions.2 (Or.inr he)) hsame
  rcases h.named_or_given_of_isParent howner ⟨node, hnode, hmem⟩ with hname | ⟨e', he', heq, hin⟩
  · obtain ⟨hrule, hgate⟩ := h.mem_of_expression howner
    exact h.not_mentions owner he owner.rule hrule ⟨owner.gate, hgate, hname⟩
  · obtain rfl := List.inj_on_of_nodup_map h.nodup (mem_expressions.2 (Or.inr he')) howner heq
    exact Gate.inline_notMem_parents _ hin

/-- Which nodes have the name of a rule among their parents. -/
theorem isParent_iff_of_rule (h : table.Expresses rules given) {r : Rule} (hr : r ∈ rules)
    {e : Expression} (he : e ∈ expressions rules given) :
    table.IsParent r.name e.name ↔ .named r.name ∈ e.gate.parents := by
  refine ⟨fun hparent => ?_, h.isParent_of_named he⟩
  refine (h.named_or_given_of_isParent he hparent).resolve_right ?_
  rintro ⟨e', he', hname, -⟩
  exact h.name_ne_of_given hr he' hname.symm

theorem exists_other_iff_of_rule (h : table.Expresses rules given) (hwell : table.WellFormed)
    {r : Rule} (hr : r ∈ rules) :
    (∃ other, other ≠ r.name ∧ table.IsParent r.name other) ↔ r.IsMentionedElsewhere rules := by
  constructor
  · rintro ⟨other, hne, node, hnode, hmem⟩
    obtain ⟨e, he, rfl, -⟩ := h.exists_expression_of_named? hwell hnode
    have hname := (h.isParent_iff_of_rule hr he).1 ⟨node, hnode, hmem⟩
    rcases mem_expressions.1 he with ⟨q, hq, rfl⟩ | hgiven
    · exact Or.inr ⟨q, hq, hne, q.gate, List.mem_cons_self, hname⟩
    · obtain ⟨hq, hgate⟩ := h.mem_of_given hgiven
      by_cases hsame : e.rule.name = r.name
      · have heq := h.eq_of_name_eq hq hr hsame
        exact Or.inl ⟨e.gate, heq ▸ hgate, hname⟩
      · exact Or.inr ⟨e.rule, hq, hsame, e.gate, List.mem_cons_of_mem _ hgate, hname⟩
  · rintro (⟨gate, hgate, hname⟩ | ⟨q, hq, hne, gate, hgate, hname⟩)
    · obtain ⟨e, he, rfl, -⟩ := h.exists_given hr hgate
      exact ⟨e.name, (h.name_ne_of_given hr he).symm,
        h.isParent_of_named (mem_expressions.2 (Or.inr he)) hname⟩
    · rcases List.mem_cons.1 hgate with rfl | hinner
      · exact ⟨q.name, hne, h.isParent_of_named (Rule.expression_mem hq) hname⟩
      · obtain ⟨e, he, rfl, -⟩ := h.exists_given hq hinner
        exact ⟨e.name, (h.name_ne_of_given hr he).symm,
          h.isParent_of_named (mem_expressions.2 (Or.inr he)) hname⟩

/-- A rule that some rule mentions is its own parent or is mentioned elsewhere. -/
theorem own_or_elsewhere (h : table.Expresses rules given) {q r : Rule} (hq : q ∈ rules)
    (hr : r ∈ rules) (hmention : q.gate.Mentions r.name) :
    .named r.name ∈ r.gate.parents ∨ r.IsMentionedElsewhere rules := by
  by_cases hsame : q.name = r.name
  · obtain rfl := h.eq_of_name_eq hq hr hsame
    obtain ⟨gate, hgate, hname⟩ := hmention
    rcases List.mem_cons.1 hgate with rfl | hinner
    · exact Or.inl hname
    · exact Or.inr (Or.inl ⟨gate, hinner, hname⟩)
  · exact Or.inr (Or.inr ⟨q, hq, hsame, hmention⟩)

/-- A name that is mentioned is a parent of another node, unless it is only its own. -/
theorem exists_other_iff (h : table.Expresses rules given) (hwell : table.WellFormed)
    {node : NamedNode} (hnode : table.named? name = some node) (hmention : name ∈ table.mentions) :
    (∃ other, other ≠ name ∧ table.IsParent name other) ↔
      ¬ ∃ r ∈ rules, r.name = name ∧ r.IsOwnParentOnly rules := by
  obtain ⟨e, he, rfl, -⟩ := h.exists_expression_of_named? hwell hnode
  rcases mem_expressions.1 he with ⟨r, hr, rfl⟩ | hgiven
  · have hsome : .named r.name ∈ r.gate.parents ∨ r.IsMentionedElsewhere rules := by
      rcases (h.mem_mentions_iff hwell).1 hmention with ⟨q, hq, hmem⟩ | ⟨e', he', hname⟩
      · exact h.own_or_elsewhere hq hr hmem
      · exact absurd hname.symm (h.name_ne_of_given hr he')
    refine (h.exists_other_iff_of_rule hwell hr).trans ⟨?_, fun hnot => ?_⟩
    · rintro helsewhere ⟨q, hq, hname, -, hnone⟩
      exact hnone (h.eq_of_name_eq hq hr hname ▸ helsewhere)
    · by_contra hnone
      exact hnot ⟨r, hr, rfl, hsome.resolve_right hnone, hnone⟩
  · refine iff_of_true (h.exists_other_of_given hwell hgiven) ?_
    rintro ⟨r, hr, hname, -⟩
    exact h.name_ne_of_given hr hgiven hname

end FlatTable.Expresses

namespace Compiler

variable {c : Compiler} {book : Rulebook}

/-- After compiling, a node that is no slot and not exempt is a parent of another node, unless
its rule names itself and nothing else names it. Such a rule is never reported as a dead end. -/
theorem exists_other_iff_of_compile (hmerge : Rulebook.ofTables c.tables = .ok book)
    (journal : Journal) :
    (∀ k, (c.compile.run journal).1 = .ok k → ∀ name node, k.table.named? name = some node →
      node.kind.isSlot = false → (∀ rule ∈ c.policy.rules, rule.isMatch name = false) →
      ((∃ other, other ≠ name ∧ k.table.IsParent name other) ↔
        ¬ ∃ r ∈ c.rules, r.name = name ∧ r.IsOwnParentOnly c.rules)) ∧
    ∀ report, (c.compile.run journal).1 = .error (.validation report) →
      ∀ r ∈ c.rules, r.IsOwnParentOnly c.rules →
        ∀ source, ⟨r.name, .deadEnd, source⟩ ∉ report.issues := by
  obtain ⟨table, given, hflatten, hwell, h⟩ := exists_expresses hmerge
  constructor
  · intro k hcompile name node hnode hslot hmatch
    obtain ⟨book', table', hmerge', hflatten', hvalid, rfl⟩ := compile_eq_ok_iff.1 hcompile
    obtain rfl := Except.ok.inj (hmerge.symm.trans hmerge')
    obtain rfl := Option.some.inj (hflatten.symm.trans hflatten')
    refine h.exists_other_iff hwell hnode ?_
    -- Otherwise validation would have found a dead end.
    by_contra hmention
    have hexempt := Policy.isExempt_eq_false_iff.2 hmatch
    exact hwell.validate_eq_ok_iff.1 hvalid _ (.deadEnd hnode hslot hmention hexempt)
  · intro report hreport r hr hown source hissue
    obtain ⟨_, given', -, -, -, -, hexact⟩ := exists_compile_isExact hmerge journal
    obtain ⟨-, hnone⟩ := (((hexact report hreport).mem_iff _).1 hissue).of_deadEnd rfl
    exact hnone r hr ⟨r.gate, List.mem_cons_self, hown.1⟩

end Compiler

/-- A gate that asks for itself. -/
def knotCompiler : Compiler where
  tables := [⟨"t", false, [("a", ⟨.and, [.named "a"]⟩)]⟩]

theorem exists_knot :
    ∃ k, (knotCompiler.compile.run {}).1 = .ok k ∧
      k.table.named? "a" = some ⟨.and, ["a"], [], "t", false⟩ ∧
      ∀ other, k.table.IsParent "a" other → other = "a" := by
  have hentries : ((knotCompiler.compile.run {}).1.map (·.table.entries)) =
      .ok [("a", ⟨.and, ["a"], [], "t", false⟩)] := by cbv
  obtain ⟨k, hcompile, hk⟩ := exists_eq_ok_of_map hentries
  have hwell := (Compiled.Built.compile {} hcompile).wellFormed
  refine ⟨k, hcompile, ?_, ?_⟩
  · rw [← hwell.mem_entries_iff, hk]
    exact List.mem_singleton_self _
  · rintro other ⟨node, hnode, -⟩
    rw [← hwell.mem_entries_iff, hk] at hnode
    exact (Prod.mk.inj (List.mem_singleton.1 hnode)).1

/-- The same gate beside one that has no parents. -/
def brokenKnotCompiler : Compiler where
  tables := [⟨"t", false, [("a", ⟨.and, [.named "a"]⟩), ("b", ⟨.or, []⟩)]⟩]

theorem exists_other_iff_knot :
    (∃ k, (knotCompiler.compile.run {}).1 = .ok k ∧
      k.table.named? "a" = some ⟨.and, ["a"], [], "t", false⟩ ∧
      ((∃ other, other ≠ "a" ∧ k.table.IsParent "a" other) ↔
        ¬ ∃ r ∈ knotCompiler.rules, r.name = "a" ∧ r.IsOwnParentOnly knotCompiler.rules)) ∧
    ∃ report, (brokenKnotCompiler.compile.run {}).1 = .error (.validation report) ∧
      ∀ source, ⟨"a", .deadEnd, source⟩ ∉ report.issues := by
  constructor
  · have hmerge : Rulebook.ofTables knotCompiler.tables =
        .ok ⟨[⟨"a", ⟨.and, [.named "a"]⟩, "t", false⟩]⟩ := by cbv
    obtain ⟨k, hcompile, hnode, -⟩ := exists_knot
    have hpolicy : ∀ rule ∈ knotCompiler.policy.rules, rule.isMatch "a" = false := by
      simp [knotCompiler, Policy.rules]
    exact ⟨k, hcompile, hnode, (Compiler.exists_other_iff_of_compile hmerge {}).1 k hcompile "a" _
      hnode rfl hpolicy⟩
  · have hmerge : Rulebook.ofTables brokenKnotCompiler.tables =
        .ok ⟨[⟨"a", ⟨.and, [.named "a"]⟩, "t", false⟩, ⟨"b", ⟨.or, []⟩, "t", false⟩]⟩ := by cbv
    have hreport : (brokenKnotCompiler.compile.run {}).1 =
        .error (.validation ⟨[⟨"b", .missingParents, "t"⟩, ⟨"b", .deadEnd, "t"⟩]⟩) := by cbv
    have hown : Rule.IsOwnParentOnly brokenKnotCompiler.rules
        ⟨"a", ⟨.and, [.named "a"]⟩, "t", false⟩ := by decide
    exact ⟨_, hreport, (Compiler.exists_other_iff_of_compile hmerge {}).2 _ hreport _
      List.mem_cons_self hown⟩

/-- The gate passes, though no other node names it. -/
theorem knot_compiles :
    ∃ k node, (knotCompiler.compile.run {}).1 = .ok k ∧ k.table.named? "a" = some node ∧
      node.kind.isSlot = false ∧ knotCompiler.policy.isExempt "a" = false ∧
      ¬ ∃ other, other ≠ "a" ∧ k.table.IsParent "a" other := by
  obtain ⟨k, hcompile, hnode, honly⟩ := exists_knot
  refine ⟨k, _, hcompile, hnode, rfl, rfl, ?_⟩
  rintro ⟨other, hne, hparent⟩
  exact hne (honly other hparent)

end Progression

import Mathlib
import Progression.Proofs.Inventories
import Progression.Proofs.Validating

/-!
What a policy exempts, and which of its rules are of no use. A name is exempted by the first rule
that matches it, in the order in which rules are listed. A rule is reported as unused if it matches
no node. Main statement: the three agree, and unused rules can be dropped all at once, for no node
is exempted by them and validation finds the same without them.
-/

namespace Progression

/-! ### What rules match -/

namespace Exemption

/-- What a rule says of a name. -/
def Matches (rule : Exemption) (name : String) : Prop :=
  match rule with
  | .name s => name = s
  | .leading s => s.toList <+: name.toList
  | .trailing s => s.toList <:+ name.toList
  | .inside s => s.toList <:+: name.toList
  | .pattern p => p.isMatch name = true

@[simp] theorem occursIn_iff {s text : List Char} : occursIn s text = true ↔ s <:+: text := by
  induction text with
  | nil => rw [occursIn, List.isEmpty_iff, List.infix_nil]
  | cons c cs ih =>
      rw [occursIn, Bool.or_eq_true, ih, List.isPrefixOf_iff_prefix, List.infix_cons_iff]

@[simp] theorem isMatch_iff {rule : Exemption} {name : String} :
    rule.isMatch name = true ↔ rule.Matches name := by
  cases rule with
  | name s => exact beq_iff_eq
  | leading s => exact List.isPrefixOf_iff_prefix
  | trailing s => exact List.isSuffixOf_iff_suffix
  | inside s => exact occursIn_iff
  | pattern p => exact Iff.rfl

instance (rule : Exemption) (name : String) : Decidable (rule.Matches name) :=
  decidable_of_iff _ isMatch_iff

theorem isMatch_eq (rule : Exemption) (name : String) :
    rule.isMatch name = decide (rule.Matches name) :=
  Bool.eq_iff_iff.2 (isMatch_iff.trans decide_eq_true_iff.symm)

end Exemption

namespace Policy

variable {policy : Policy} {table : FlatTable}

/-! ### The first rule that matches -/

theorem find?_name (names : List String) (name : String) :
    (names.map Exemption.name).find? (·.isMatch name) =
      if name ∈ names then some (.name name) else none := by
  induction names with
  | nil => rfl
  | cons n names ih =>
      rw [List.map_cons, List.find?_cons, ih, Exemption.isMatch]
      by_cases hname : name = n
      · simp [hname]
      · have hne : (name == n) = false := beq_eq_false_iff_ne.2 hname
        simp [hne, hname]

/-- Looking rules up kind by kind finds the first one that matches. -/
theorem exemptionFor?_eq (policy : Policy) (name : String) :
    policy.exemptionFor? name = policy.rules.find? (·.isMatch name) := by
  rw [rules, List.find?_append, List.find?_append, List.find?_append, List.find?_append, find?_name,
    exemptionFor?]
  split <;> simp [Option.or_assoc]

/-! ### Policies that are built call by call -/

section Building

variable {compile? : String → Option Pattern}

/-- A policy that comes about by adding rules to the empty one. Nothing is known of the patterns
that texts are compiled to, nor of what they match. -/
inductive Built (compile? : String → Option Pattern) : Policy → Prop
  | empty : Built compile? {}
  | name {policy : Policy} (s : String) : Built compile? policy →
      Built compile? (policy.addName s)
  | leading {policy : Policy} (s : String) : Built compile? policy →
      Built compile? (policy.addLeading s)
  | trailing {policy : Policy} (s : String) : Built compile? policy →
      Built compile? (policy.addTrailing s)
  | inside {policy : Policy} (s : String) : Built compile? policy →
      Built compile? (policy.addInside s)
  | pattern {policy policy' : Policy} {s : String} : Built compile? policy →
      policy.addPatternBy compile? s = .ok policy' → Built compile? policy'

theorem addPatternBy_eq_ok_iff {policy' : Policy} {s : String} :
    policy.addPatternBy compile? s = .ok policy' ↔ ∃ p, compile? s = some p ∧
      policy' = { policy with patterns := policy.patterns ++ [p] } := by
  unfold addPatternBy
  cases compile? s <;> simp [eq_comm]

theorem Built.pairwise_names (h : policy.Built compile?) : policy.names.Pairwise (· < ·) := by
  induction h with
  | empty => exact List.Pairwise.nil
  | name s _ ih => exact Inventory.pairwise_place s ih
  | leading _ _ ih | trailing _ _ ih | inside _ _ ih => exact ih
  | pattern _ hadd ih =>
      obtain ⟨p, -, rfl⟩ := addPatternBy_eq_ok_iff.1 hadd
      exact ih

end Building

/-! ### Dropping rules -/

/-- The policy of those rules that pass a test. -/
def keep (policy : Policy) (test : Exemption → Bool) : Policy where
  names := policy.names.filter (test ∘ .name)
  leading := policy.leading.filter (test ∘ .leading)
  trailing := policy.trailing.filter (test ∘ .trailing)
  inside := policy.inside.filter (test ∘ .inside)
  patterns := policy.patterns.filter (test ∘ .pattern)

@[simp] theorem rules_keep (policy : Policy) (test : Exemption → Bool) :
    (policy.keep test).rules = policy.rules.filter test := by
  simp only [rules, keep, List.filter_append, List.filter_map]

/-- What is left of a policy can be built too, by leaving out calls. -/
theorem Built.keep {compile? : String → Option Pattern} (h : policy.Built compile?)
    (test : Exemption → Bool) : (policy.keep test).Built compile? := by
  have hfilter : ∀ {α : Type} (f : α → Bool) (l : List α) (a : α),
      (l ++ [a]).filter f = if f a then l.filter f ++ [a] else l.filter f := by
    intro α f l a
    cases hf : f a <;> simp [hf]
  induction h with
  | empty => exact .empty
  | @name policy s h ih =>
      have hnames := Inventory.filter_place (test ∘ .name) s h.pairwise_names
      simp only [Policy.keep, addName, hnames]
      split
      · exact ih.name s
      · exact ih
  | leading s _ ih =>
      simp only [Policy.keep, addLeading, hfilter]
      split
      · exact ih.leading s
      · exact ih
  | trailing s _ ih =>
      simp only [Policy.keep, addTrailing, hfilter]
      split
      · exact ih.trailing s
      · exact ih
  | inside s _ ih =>
      simp only [Policy.keep, addInside, hfilter]
      split
      · exact ih.inside s
      · exact ih
  | pattern _ hadd ih =>
      obtain ⟨p, hp, rfl⟩ := addPatternBy_eq_ok_iff.1 hadd
      simp only [Policy.keep, hfilter]
      split
      · exact ih.pattern (addPatternBy_eq_ok_iff.2 ⟨p, hp, rfl⟩)
      · exact ih

/-! ### Main statement -/

/-- The unused rules of each kind, one kind after the other, are the unused ones among all. -/
theorem unused_eq_filter (policy : Policy) (table : FlatTable) :
    policy.unused table =
      policy.rules.filter fun rule => !table.names.any rule.isMatch := by
  have hnames : (table.defined.map fun entry => table.name entry.1) = table.names := by
    rw [FlatTable.names, FlatTable.entries, List.map_map]
    rfl
  have hlisted : ∀ s, table.names.contains s = table.names.any (Exemption.name s).isMatch := by
    intro s
    rw [List.contains_eq_any_beq]
    exact congrArg table.names.any (funext fun name => Bool.beq_comm)
  simp only [unused, hnames, hlisted, rules, List.filter_append, List.filter_map]
  rfl

theorem unused_eq (policy : Policy) (table : FlatTable) :
    policy.unused table =
      policy.rules.filter fun rule => ∀ name ∈ table.names, ¬ rule.Matches name := by
  rw [unused_eq_filter]
  refine List.filter_congr fun rule _ => ?_
  rw [Bool.eq_iff_iff, Bool.not_eq_true', List.any_eq_false, decide_eq_true_iff]
  simp only [Exemption.isMatch_iff]

/-- Rules that match no node of a table make no difference to its nodes. -/
theorem exemptionFor?_of_rules {rest : Policy}
    (hrest : rest.rules =
      policy.rules.filter fun rule => ∃ name ∈ table.names, rule.Matches name)
    {name : String} (hname : name ∈ table.names) :
    rest.exemptionFor? name = policy.exemptionFor? name := by
  rw [exemptionFor?_eq, exemptionFor?_eq, hrest, List.find?_filter]
  congr 1
  ext rule
  rw [Exemption.isMatch_eq, decide_eq_decide, decide_eq_true_iff, decide_eq_true_iff]
  exact and_iff_right_of_imp fun hmatch => ⟨name, hname, hmatch⟩

/-- Validation asks a policy about the nodes of the table only. -/
theorem validate_congr {rest : Policy}
    (h : ∀ name ∈ table.names, rest.isExempt name = policy.isExempt name) :
    table.validate rest = table.validate policy := by
  have hissues : table.issues rest = table.issues policy := by
    rw [FlatTable.issues, FlatTable.issues]
    congr 1
    refine List.flatMap_congr fun entry hentry => ?_
    have hname : table.name entry.1 ∈ table.names := by
      rw [FlatTable.names, FlatTable.entries, List.map_map]
      exact List.mem_map.2 ⟨entry, hentry, rfl⟩
    simp only [FlatTable.issuesOf, h _ hname]
  rw [FlatTable.validate, FlatTable.validate, hissues]

/-- The first rule that matches exempts a name; the rules that match no node of a table are
reported as unused, in their order; and the policy of the other rules exempts the nodes of the
table by the same rules, so that validation finds the same faults. This holds whatever patterns are
and match. -/
theorem Built.exempts_as_listed {compile? : String → Option Pattern} (h : policy.Built compile?) :
    (∀ name, policy.exemptionFor? name = policy.rules.find? (fun rule => rule.Matches name) ∧
      (policy.exemptionFor? name = none ↔ ∀ rule ∈ policy.rules, ¬ rule.Matches name)) ∧
    ∀ table : FlatTable,
      policy.unused table =
        policy.rules.filter (fun rule => ∀ name ∈ table.names, ¬ rule.Matches name) ∧
      (∃ rest : Policy, rest.Built compile? ∧ rest.rules =
        policy.rules.filter fun rule => ∃ name ∈ table.names, rule.Matches name) ∧
      ∀ rest : Policy, (rest.rules =
          policy.rules.filter fun rule => ∃ name ∈ table.names, rule.Matches name) →
        (∀ name ∈ table.names, rest.exemptionFor? name = policy.exemptionFor? name) ∧
        table.validate rest = table.validate policy := by
  have hfirst : ∀ name,
      policy.exemptionFor? name = policy.rules.find? fun rule => rule.Matches name := by
    intro name
    simp only [exemptionFor?_eq, Exemption.isMatch_eq]
  refine ⟨fun name => ⟨hfirst name, ?_⟩, fun table => ⟨policy.unused_eq table, ?_, ?_⟩⟩
  · simp only [hfirst, List.find?_eq_none, decide_eq_true_iff]
  · exact ⟨_, h.keep _, policy.rules_keep _⟩
  · intro rest hrest
    refine ⟨fun name hname => exemptionFor?_of_rules hrest hname, ?_⟩
    exact validate_congr fun name hname => by
      rw [isExempt, isExempt, exemptionFor?_of_rules hrest hname]

/-- A pier that is reached over water, and nothing else. -/
def pierTable : FlatTable :=
  ((FlatTable.empty.internAll ["water", "pier"]).1.define 0 ⟨.root, [], [], "t", false⟩).define 1
    ⟨.and, [0], [], "t", false⟩

/-- The pier is exempt by its beginning. The name and the pattern match no node. -/
theorem exempts_as_listed_pier : ∃ policy rest : Policy,
    policy.Built Pattern.compile? ∧ rest.Built Pattern.compile? ∧
    (policy.unused pierTable).map Exemption.value = ["quay", "q+u"] ∧
    (policy.exemptionFor? "pier").map Exemption.value = some "pi" ∧
    (∀ name ∈ pierTable.names, rest.exemptionFor? name = policy.exemptionFor? name) ∧
    pierTable.validate rest = .ok () := by
  have hruns : (Pattern.compile? "q+u").map (fun p =>
      let policy : Policy := { names := ["quay"], leading := ["pi"], patterns := [p] }
      ((policy.unused pierTable).map Exemption.value,
        (policy.exemptionFor? "pier").map Exemption.value, pierTable.validate policy)) =
      some (["quay", "q+u"], some "pi", .ok ()) := by cbv
  obtain ⟨p, hp, hruns⟩ := Option.map_eq_some_iff.1 hruns
  obtain ⟨hunused, hpier, hvalid⟩ : _ ∧ _ ∧ _ := by simpa only [Prod.mk.injEq] using hruns
  have hbuilt : Built Pattern.compile? { names := ["quay"], leading := ["pi"], patterns := [p] } :=
    ((Built.empty.leading "pi").name "quay").pattern (addPatternBy_eq_ok_iff.2 ⟨p, hp, rfl⟩)
  obtain ⟨-, htable⟩ := hbuilt.exempts_as_listed
  obtain ⟨-, ⟨rest, hrestBuilt, hrest⟩, hsame⟩ := htable pierTable
  obtain ⟨hexempt, hvalidate⟩ := hsame rest hrest
  exact ⟨_, rest, hbuilt, hrestBuilt, hunused, hpier, hexempt, hvalidate.trans hvalid⟩

end Policy

end Progression

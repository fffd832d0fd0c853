import Mathlib.Logic.Function.Iterate
import Mathlib.Order.Bounds.Basic
import Progression.Proofs.Flattening

/-!
Rounds and their cap. A round takes away one level of nesting and no more, so what is left after
some rounds is the nesting at the start less their number, and the rounds end after as many as
the rules nest deep. A cap stops them only if it is smaller than that. Main statement: since the
cap is raised to the deepest nesting, flattening always succeeds and the cap decides nothing.
-/

namespace Progression

namespace Flatten

variable {taken : Std.TreeSet String} {pending : List Rule}

/-! ### The nesting that is left -/

/-- A round takes one level of nesting away. -/
@[simp] theorem deepest_lifted (taken : Std.TreeSet String) (pending : List Rule) :
    deepest ⟨lifted taken pending⟩ = deepest ⟨pending⟩ - 1 := by
  have hupper : deepest ⟨lifted taken pending⟩ ≤ deepest ⟨pending⟩ - 1 := by
    rw [Rulebook.deepest_le_iff]
    intro q hq
    obtain ⟨r, hr, hqr⟩ := mem_lifted_iff.1 hq
    have hlt := depth_lt_of_mem_lift hqr
    have hle : r.gate.depth ≤ deepest ⟨pending⟩ := Rulebook.depth_le_deepest hr
    omega
  have hlower : deepest ⟨pending⟩ ≤ deepest ⟨lifted taken pending⟩ + 1 := by
    rw [Rulebook.deepest_le_iff]
    intro r hr
    apply depth_le_of_lift taken
    intro q hq
    have hmem : q ∈ lifted taken pending := mem_lifted_iff.2 ⟨r, hr, hq⟩
    have hle : q.gate.depth ≤ deepest ⟨lifted taken pending⟩ := Rulebook.depth_le_deepest hmem
    exact Nat.lt_succ_of_le hle
  omega

/-- So much nesting is left after `n` rounds. -/
@[simp]
theorem deepest_iterate_lifted (taken : Std.TreeSet String) (pending : List Rule) (n : Nat) :
    deepest ⟨(lifted taken)^[n] pending⟩ = deepest ⟨pending⟩ - n := by
  induction n with
  | zero => rfl
  | succ n ih =>
      rw [Function.iterate_succ_apply', deepest_lifted, ih]
      omega

theorem lifted_eq_nil_iff : lifted taken pending = [] ↔ deepest ⟨pending⟩ = 0 := by
  rw [← Nat.le_zero, Rulebook.deepest_le_iff]
  constructor
  · intro hnone r hr
    exact depth_le_of_lift taken fun q hq =>
      absurd (mem_lifted_iff.2 ⟨r, hr, hq⟩) (hnone ▸ List.not_mem_nil)
  · exact fun h => lifted_eq_nil fun r hr => Nat.le_zero.1 (h r hr)

/-! ### When rounds end -/

theorem Settles.rounds_eq {flat : List FlatRule} {stats : FlattenStats}
    (h : Settles taken pending flat stats) : stats.rounds = deepest ⟨pending⟩ := by
  apply Nat.le_antisymm
  · rcases h.rounds_le with hzero | ⟨r, hr, hle⟩
    · rw [hzero]
      exact Nat.zero_le _
    · have hdeepest : r.gate.depth ≤ deepest ⟨pending⟩ := Rulebook.depth_le_deepest hr
      exact Nat.le_trans hle hdeepest
  · rw [Rulebook.deepest_le_iff]
    exact h.depth_le

/-- Rounds are cut short exactly if fewer are allowed than the rules nest deep. -/
theorem rounds_eq_none_iff (left : Nat) :
    rounds left taken pending = none ↔ left < deepest ⟨pending⟩ := by
  induction left generalizing pending with
  | zero =>
      by_cases hnone : lifted taken pending = []
      · rw [rounds_of_none hnone, lifted_eq_nil_iff.1 hnone]
        simp
      · rw [rounds_zero hnone]
        have hdeep : deepest ⟨pending⟩ ≠ 0 := mt lifted_eq_nil_iff.2 hnone
        simp [Nat.pos_of_ne_zero hdeep]
  | succ left ih =>
      by_cases hnone : lifted taken pending = []
      · rw [rounds_of_none hnone, lifted_eq_nil_iff.1 hnone]
        simp
      · rw [rounds_succ hnone, Option.map_eq_none_iff, ih, deepest_lifted]
        omega

/-- One round more that is allowed changes nothing if the rounds end without it. -/
theorem rounds_succ_eq {left : Nat} (h : deepest ⟨pending⟩ ≤ left) :
    rounds (left + 1) taken pending = rounds left taken pending := by
  induction left generalizing pending with
  | zero =>
      have hnone : lifted taken pending = [] := lifted_eq_nil_iff.2 (Nat.le_zero.1 h)
      rw [rounds_of_none hnone, rounds_of_none hnone]
  | succ left ih =>
      by_cases hnone : lifted taken pending = []
      · rw [rounds_of_none hnone, rounds_of_none hnone]
      · have hleft : deepest ⟨lifted taken pending⟩ ≤ left := by
          rw [deepest_lifted]
          omega
        rw [rounds_succ hnone, rounds_succ hnone, ih hleft]

theorem rounds_eq_of_le {left : Nat} (h : deepest ⟨pending⟩ ≤ left) :
    rounds left taken pending = rounds (deepest ⟨pending⟩) taken pending := by
  induction left, h using Nat.le_induction with
  | base => rfl
  | succ left hle ih => rw [rounds_succ_eq hle, ih]

@[simp] theorem stats_ofRules (rules : List FlatRule) (stats : FlattenStats) :
    (ofRules rules stats).stats = stats := by
  have hadd : ∀ table : FlatTable, (rules.foldl addRule table).stats = table.stats := by
    induction rules with
    | nil => exact fun _ => rfl
    | cons r rules ih =>
        intro table
        rw [List.foldl_cons, ih, stats_addRule]
  obtain ⟨-, -, hintern, -⟩ := internNames_spec rules (FlatTable.wellFormed_empty stats)
  rw [ofRules_eq, hadd, hintern]

end Flatten

/-! ### Main statement -/

namespace Rulebook

open Flatten

theorem deepest_isGreatest (book : Rulebook) :
    IsGreatest (insert 0 {depth | ∃ r ∈ book.rules, r.gate.depth = depth}) (deepest book) := by
  constructor
  · rcases Nat.eq_zero_or_pos (deepest book) with hzero | hpos
    · exact Or.inl hzero
    · -- Some rule is as deep, for otherwise a smaller bound would do.
      right
      by_contra hnone
      have hle : deepest book ≤ deepest book - 1 := by
        rw [deepest_le_iff]
        intro r hr
        have hle : r.gate.depth ≤ deepest book := depth_le_deepest hr
        have hne : r.gate.depth ≠ deepest book := fun heq => hnone ⟨r, hr, heq⟩
        omega
      omega
  · rintro depth (rfl | ⟨r, hr, rfl⟩)
    · exact Nat.zero_le _
    · exact depth_le_deepest hr

/-- Flattening succeeds with one and the same table for all caps, in as many rounds as the rules
nest deep. Each round leaves one level less, so that a cap would have to be smaller than the
deepest nesting to fall short. -/
theorem exists_flatten?_anyCap (book : Rulebook) :
    ∃ table, (∀ cap, book.flatten? cap = some table) ∧
      IsGreatest (insert 0 {depth | ∃ r ∈ book.rules, r.gate.depth = depth})
        table.stats.rounds ∧
      (∀ n, deepest ⟨(lifted book.taken)^[n] book.rules⟩ = table.stats.rounds - n) ∧
      ∀ left, rounds left book.taken book.rules = none ↔ left < table.stats.rounds := by
  have hdeepest : ∀ r ∈ book.rules, r.gate.depth ≤ deepest book := fun r => depth_le_deepest
  obtain ⟨flat, stats, hrounds, hsettles⟩ := rounds_eq_some book.taken hdeepest
  have hflatten : ∀ cap, book.flatten? cap =
      some (ofRules (flat.mergeSort Flatten.byName) stats) := by
    intro cap
    apply flatten?_eq_of_rounds
    rw [rounds_eq_of_le (Nat.le_max_right _ _)]
    exact hrounds
  have hstats : (ofRules (flat.mergeSort Flatten.byName) stats).stats.rounds = deepest book := by
    rw [stats_ofRules, hsettles.rounds_eq]
  refine ⟨_, hflatten, ?_⟩
  rw [hstats]
  exact ⟨deepest_isGreatest book, deepest_iterate_lifted book.taken book.rules,
    rounds_eq_none_iff⟩

end Rulebook

end Progression

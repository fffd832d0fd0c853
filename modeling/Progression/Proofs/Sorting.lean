import Mathlib.Data.Prod.Lex
import Mathlib.Data.String.Basic
import Mathlib.Data.List.Perm.Basic

/-!
Sorting by keys. What is reported is compared field by field, which is to compare keys that are
names, numbers or pairs of these. Once it is sorted, the keys rise.
-/

namespace Progression

variable {α β : Type} [LinearOrder β] {le : α → α → Bool} {key : α → β}

theorem pairwise_mergeSort_key (hle : ∀ a b, le a b = true ↔ key a ≤ key b) (l : List α) :
    (l.mergeSort le).Pairwise fun a b => key a ≤ key b := by
  have hsorted : (l.mergeSort le).Pairwise fun a b => le a b = true := by
    apply List.pairwise_mergeSort
    · intro a b c hab hbc
      rw [hle] at hab hbc ⊢
      exact le_trans hab hbc
    · intro a b
      rw [Bool.or_eq_true, hle, hle]
      exact le_total _ _
  exact hsorted.imp fun {a b} hab => (hle a b).1 hab

/-- Different keys rise strictly. -/
theorem pairwise_lt_mergeSort_key (hle : ∀ a b, le a b = true ↔ key a ≤ key b) {l : List α}
    (h : (l.map key).Nodup) : (l.mergeSort le).Pairwise fun a b => key a < key b := by
  have hperm : (l.mergeSort le).Perm l := List.mergeSort_perm l le
  have hsorted := pairwise_mergeSort_key hle l
  have hdiffer : (l.mergeSort le).Pairwise fun a b => key a ≠ key b :=
    List.pairwise_map.1 ((hperm.map key).nodup_iff.2 h)
  exact (hsorted.and hdiffer).imp fun hab => lt_of_le_of_ne hab.1 hab.2

end Progression

import Mathlib.Data.String.Basic
import Progression.Inventory

/-!
Inventories as sorted lists. Putting an item in its place adds that item and no other, and keeps the
items in order and without repetition.
-/

namespace Progression.Inventory

@[simp] theorem mem_place_iff {item other : String} (items : List String) :
    other ∈ place item items ↔ other = item ∨ other ∈ items := by
  induction items with
  | nil => simp [place]
  | cons i items ih =>
      rw [place]
      split
      case isTrue heq => simp [heq]
      case isFalse =>
          split
          · rw [List.mem_cons]
          · rw [List.mem_cons, ih, List.mem_cons]
            exact or_left_comm

theorem mem_foldl_insert_iff {item : String} (items : List String) (inventory : Inventory) :
    item ∈ (items.foldl insert inventory).items ↔ item ∈ items ∨ item ∈ inventory.items := by
  induction items generalizing inventory with
  | nil => simp
  | cons i items ih =>
      have hinsert : item ∈ (inventory.insert i).items ↔ item = i ∨ item ∈ inventory.items :=
        mem_place_iff inventory.items
      rw [List.foldl_cons, ih, hinsert, List.mem_cons]
      exact or_left_comm.trans or_assoc.symm

theorem pairwise_place (item : String) {items : List String} (h : items.Pairwise (· < ·)) :
    (place item items).Pairwise (· < ·) := by
  induction items with
  | nil => exact List.pairwise_singleton _ _
  | cons i items ih =>
      obtain ⟨hi, hitems⟩ := List.pairwise_cons.1 h
      rw [place]
      split
      case isTrue => exact h
      case isFalse hne =>
          split
          case isTrue hlt =>
              refine List.pairwise_cons.2 ⟨fun j hj => ?_, h⟩
              rcases List.mem_cons.1 hj with rfl | hmem
              · exact hlt
              · exact lt_trans hlt (hi j hmem)
          case isFalse hnot =>
              refine List.pairwise_cons.2 ⟨fun j hj => ?_, ih hitems⟩
              rcases (mem_place_iff items).1 hj with rfl | hmem
              · exact lt_of_le_of_ne (not_lt.1 hnot) (Ne.symm hne)
              · exact hi j hmem

theorem place_of_forall_lt {item : String} {items : List String}
    (h : ∀ i ∈ items, item < i) : place item items = item :: items := by
  cases items with
  | nil => rfl
  | cons i items =>
      have hlt := h i List.mem_cons_self
      rw [place, if_neg (ne_of_lt hlt), if_pos hlt]

/-- An item that is dropped leaves the others in their places. -/
theorem filter_place (test : String → Bool) (item : String) {items : List String}
    (h : items.Pairwise (· < ·)) :
    (place item items).filter test =
      if test item then place item (items.filter test) else items.filter test := by
  induction items with
  | nil => cases htest : test item <;> simp [place, htest]
  | cons i items ih =>
      obtain ⟨hi, hitems⟩ := List.pairwise_cons.1 h
      rw [place]
      split
      case isTrue heq =>
          subst heq
          cases htest : test item <;> simp [place, htest]
      case isFalse hne =>
          split
          case isTrue hlt =>
              have hall : ∀ j ∈ (i :: items).filter test, item < j := by
                intro j hj
                rcases List.mem_cons.1 (List.mem_of_mem_filter hj) with rfl | hmem
                · exact hlt
                · exact lt_trans hlt (hi j hmem)
              rw [place_of_forall_lt hall, List.filter_cons]
          case isFalse hnot =>
              rw [List.filter_cons, ih hitems, List.filter_cons]
              cases test i <;> cases test item <;> simp [place, hne, hnot]

/-- The items of an inventory are in order and without repetition. -/
theorem pairwise_ofList (names : List String) : (ofList names).items.Pairwise (· < ·) := by
  have hfold : ∀ inventory : Inventory, inventory.items.Pairwise (· < ·) →
      (names.foldl insert inventory).items.Pairwise (· < ·) := by
    induction names with
    | nil => exact fun _ h => h
    | cons name names ih => exact fun inventory h => ih _ (pairwise_place name h)
  exact hfold empty List.Pairwise.nil

@[simp] theorem mem_ofList_iff {names : List String} {item : String} :
    item ∈ (ofList names).items ↔ item ∈ names := by
  rw [ofList, mem_foldl_insert_iff]
  exact or_iff_left List.not_mem_nil

end Progression.Inventory

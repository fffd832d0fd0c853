import Mathlib.Data.List.Basic
import Progression.Flatten

/-!
The names given to gates written in place: the name of the owner, a blank and a number.
Owner and number can be read back, for a number holds no blank. So a given name says where
it comes from, and the chain of owners behind it ends at the first name that was taken
before any was given.
-/

namespace Progression.Flatten

/-! ### Owner and number -/

theorem blank_notMem_digits (k : Nat) : ' ' ∉ (toString k).toList := by
  intro hblank
  rw [Nat.toString_eq_repr, Nat.toList_repr] at hblank
  exact absurd (Nat.isDigit_of_mem_toDigits (by decide) (by decide) hblank) (by decide)

/-- Two texts that agree agree up to their first blank and behind it. -/
theorem eq_of_append_blank {front front' rest rest' : List Char} (h : ' ' ∉ front)
    (h' : ' ' ∉ front') (heq : front ++ ' ' :: rest = front' ++ ' ' :: rest') :
    front = front' ∧ rest = rest' := by
  induction front generalizing front' with
  | nil =>
      cases front' with
      | nil => exact ⟨rfl, (List.cons.inj heq).2⟩
      | cons c cs => exact absurd ((List.cons.inj heq).1 ▸ List.mem_cons_self) h'
  | cons c cs ih =>
      cases front' with
      | nil => exact absurd ((List.cons.inj heq).1 ▸ List.mem_cons_self) h
      | cons c' cs' =>
          obtain ⟨rfl, htail⟩ := List.cons.inj heq
          rw [List.mem_cons, not_or] at h h'
          obtain ⟨rfl, hrest⟩ := ih h.2 h'.2 htail
          exact ⟨rfl, hrest⟩

@[simp] theorem toList_numbered (owner : String) (k : Nat) :
    (numbered owner k).toList = owner.toList ++ ' ' :: (toString k).toList := by
  rw [numbered, String.toList_append, String.toList_append, List.append_assoc]
  rfl

/-- A given name determines its owner and its number. -/
theorem numbered_inj {owner owner' : String} {k k' : Nat}
    (h : numbered owner k = numbered owner' k') : owner = owner' ∧ k = k' := by
  have hlist := congrArg (List.reverse ∘ String.toList) h
  simp only [Function.comp_apply, toList_numbered, List.reverse_append, List.reverse_cons,
    List.append_assoc, List.singleton_append] at hlist
  have hblank : ∀ j : Nat, ' ' ∉ (toString j).toList.reverse :=
    fun j hj => blank_notMem_digits j (List.mem_reverse.1 hj)
  obtain ⟨hdigits, howner⟩ := eq_of_append_blank (hblank k) (hblank k') hlist
  refine ⟨String.toList_inj.1 (List.reverse_inj.1 howner), ?_⟩
  have hvalue := congrArg (Nat.ofDigitChars 10 · 0) (List.reverse_inj.1 hdigits)
  simpa only [Nat.toString_eq_repr, Nat.toList_repr, Nat.ofDigitChars_ten_toDigits] using hvalue

theorem length_lt_numbered (owner : String) (k : Nat) :
    owner.length < (numbered owner k).length := by
  rw [← String.length_toList, ← String.length_toList, toList_numbered, List.length_append,
    List.length_cons]
  omega

theorem numbered_ne_owner (owner : String) (k : Nat) : numbered owner k ≠ owner := by
  intro heq
  have hlt := length_lt_numbered owner k
  rw [heq] at hlt
  exact Nat.lt_irrefl _ hlt

/-! ### The search for a free number -/

/-- The number found is the first one, from the start on, whose name is not taken. -/
theorem freeNumber_spec (owner : String) (taken : Std.TreeSet String) (k : Nat) :
    k ≤ freeNumber owner taken k ∧
      taken.contains (numbered owner (freeNumber owner taken k)) = false ∧
      ∀ j, k ≤ j → j < freeNumber owner taken k → taken.contains (numbered owner j) = true := by
  fun_induction freeNumber owner taken k with
  | case1 taken k htaken ih =>
      obtain ⟨hle, hfree, hbefore⟩ := ih
      -- Dropping one name from the search matters to no other number.
      have herase : ∀ j, j ≠ k → (taken.erase (numbered owner k)).contains (numbered owner j) =
          taken.contains (numbered owner j) := by
        intro j hj
        have hne : numbered owner k ≠ numbered owner j :=
          fun heq => hj (numbered_inj heq).2.symm
        rw [Std.TreeSet.contains_erase]
        simp [hne]
      refine ⟨by omega, ?_, fun j hj hlt => ?_⟩
      · rw [herase _ (by omega)] at hfree
        exact hfree
      · by_cases hjk : j = k
        · exact hjk ▸ htaken
        · rw [← herase j hjk]
          exact hbefore j (by omega) hlt
  | case2 taken k hfree => exact ⟨Nat.le_refl k, Bool.eq_false_iff.2 hfree, by omega⟩

/-! ### Chains of owners -/

/-- A name made from `root` by numbering again and again, all names on the way being free. -/
inductive Descends (taken : Std.TreeSet String) (root : String) : String → Prop
  | self : Descends taken root root
  | step {owner : String} {k : Nat} : Descends taken root owner →
      taken.contains (numbered owner k) = false → Descends taken root (numbered owner k)

namespace Descends

variable {taken : Std.TreeSet String} {a b x : String}

theorem trans (hab : Descends taken a b) (hbx : Descends taken b x) : Descends taken a x := by
  induction hbx with
  | self => exact hab
  | step _ hfree ih => exact .step ih hfree

theorem length_le (h : Descends taken a x) : a.length ≤ x.length := by
  induction h with
  | self => exact Nat.le_refl _
  | @step owner k _ _ ih => exact Nat.le_trans ih (Nat.le_of_lt (length_lt_numbered owner k))

/-- Only the root of a chain may be taken. -/
theorem eq_of_taken (h : Descends taken a x) (hx : taken.contains x = true) : a = x := by
  cases h with
  | self => rfl
  | step _ hfree =>
      rw [hfree] at hx
      contradiction

theorem free_of_ne (h : Descends taken a x) (hne : a ≠ x) : taken.contains x = false := by
  cases hx : taken.contains x with
  | false => rfl
  | true => exact absurd (h.eq_of_taken hx) hne

/-- Two chains to one name run together from the later root on. -/
theorem comparable (ha : Descends taken a x) (hb : Descends taken b x) :
    Descends taken a b ∨ Descends taken b a := by
  induction ha with
  | self => exact Or.inr hb
  | @step owner k ha hfree ih =>
      generalize hx : numbered owner k = x at hb
      cases hb with
      | self => exact Or.inl (hx ▸ .step ha hfree)
      | step hb _ =>
          obtain ⟨rfl, rfl⟩ := numbered_inj hx
          exact ih hb

/-- Names of one owner have no descendant in common. -/
theorem number_eq {owner : String} {j k : Nat}
    (h : Descends taken (numbered owner j) (numbered owner k)) : j = k := by
  generalize hx : numbered owner k = x at h
  cases h with
  | self => exact (numbered_inj hx).2.symm
  | step h _ =>
      obtain ⟨rfl, rfl⟩ := numbered_inj hx
      exact absurd h.length_le (Nat.not_le_of_lt (length_lt_numbered owner j))

end Descends

end Progression.Flatten

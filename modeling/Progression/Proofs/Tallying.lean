import Mathlib.Logic.Relation
import Progression.Proofs.Evaluation

/-!
The tally of a count gate, look by look. It may stop before the last producer, with either answer,
and it bounds the producers to come by a number that starts too large when placements are parents
too. Main statement: the answer compares the threshold with the number of open producers. At every
look the bound exceeds the number of producers to come by the placements that are passed over, so
that it never falls below that number, and the answer no comes early only if the producers to come
are too few.
-/

namespace Progression.Reader

/-- A tally before a look at the first of the producers to come. -/
structure Tally where
  satisfied : Nat
  remaining : Nat
  rest : List NodeId
  deriving Repr, DecidableEq

namespace Tally

/-- The tally of the parents and the placements of a resource, before the first look. -/
def start (authored placed : List NodeId) : Tally :=
  ⟨0, authored.length + placed.length, authored ++ placed.filter (!authored.contains ·)⟩

/-- What the tally comes to. -/
def answer (isOpen : NodeId → Bool) (min : Nat) (t : Tally) : Bool :=
  tally isOpen min t.satisfied t.remaining t.rest

/-- One look gives an answer or the tally before the next look. -/
def look (isOpen : NodeId → Bool) (min : Nat) (t : Tally) : Bool ⊕ Tally :=
  match t.rest with
  | [] => .inl (min ≤ t.satisfied)
  | p :: ps =>
    let satisfied := if isOpen p then t.satisfied + 1 else t.satisfied
    if isOpen p && min ≤ satisfied then .inl true
    else
      let remaining := t.remaining - 1
      if satisfied + remaining < min then .inl false
      else .inr ⟨satisfied, remaining, ps⟩

/-- A look leads from one tally to the other. -/
def GoesOn (isOpen : NodeId → Bool) (min : Nat) (t t' : Tally) : Prop :=
  t.look isOpen min = .inr t'

variable {isOpen isOpen' : NodeId → Bool} {min skipped : Nat} {t t' : Tally}
  {producers authored authored' placed placed' ps : List NodeId} {p : NodeId}

/-- A tally comes to what it comes to after a look. -/
theorem answer_eq_look (isOpen : NodeId → Bool) (min : Nat) (t : Tally) :
    t.answer isOpen min = Sum.elim id (answer isOpen min) (t.look isOpen min) := by
  obtain ⟨satisfied, remaining, rest⟩ := t
  cases rest with
  | nil => rfl
  | cons p ps =>
      simp only [answer, look, tally, apply_ite (Sum.elim id _), Sum.elim_inl, Sum.elim_inr, id]

/-! ### What a tally knows -/

/-- Between two looks the threshold is not met, the open producers so far have been counted, and the
bound is what it has to be, with room for `skipped` more. -/
structure Knows (isOpen : NodeId → Bool) (min skipped : Nat) (producers : List NodeId)
    (t : Tally) : Prop where
  exists_seen : ∃ seen, seen ++ t.rest = producers ∧ t.satisfied = seen.countP isOpen
  satisfied_lt : t.satisfied < min
  remaining_eq : t.remaining = t.rest.length + skipped

/-- The placements that are passed over are those that are parents too. -/
theorem knows_start (isOpen : NodeId → Bool) (hmin : 0 < min) (authored placed : List NodeId) :
    (start authored placed).Knows isOpen min (placed.countP (authored.contains ·))
      (start authored placed).rest where
  exists_seen := ⟨[], rfl, rfl⟩
  satisfied_lt := hmin
  remaining_eq := by
    have hsplit := List.length_eq_countP_add_countP (authored.contains ·) (l := placed)
    have hnot : (placed.filter (!authored.contains ·)).length =
        placed.countP fun p => ¬ authored.contains p = true := by
      rw [← List.countP_eq_length_filter]
      exact List.countP_congr fun p _ => by simp
    simp only [start, List.length_append]
    omega

namespace Knows

theorem exists_look (h : t.Knows isOpen min skipped producers) (hrest : t.rest = p :: ps) :
    ∃ seen, seen ++ p :: ps = producers ∧ t.satisfied = seen.countP isOpen ∧
      t.look isOpen min =
        if min ≤ (seen ++ [p]).countP isOpen then .inl true
        else if (seen ++ [p]).countP isOpen + ps.length + skipped < min then .inl false
        else .inr ⟨(seen ++ [p]).countP isOpen, ps.length + skipped, ps⟩ := by
  obtain ⟨seen, hseen, hsatisfied⟩ := h.exists_seen
  have hlt := h.satisfied_lt
  have hremaining : t.remaining - 1 = ps.length + skipped := by
    rw [h.remaining_eq, hrest, List.length_cons]
    omega
  refine ⟨seen, hrest ▸ hseen, hsatisfied, ?_⟩
  rw [look, hrest]
  simp only [hremaining, hsatisfied, List.countP_append, List.countP_singleton, ← Nat.add_assoc]
  cases hp : isOpen p with
  | true => simp
  | false =>
      have hnot : ¬ min ≤ seen.countP isOpen := by omega
      simp [hnot]

/-- A look keeps what is known. -/
theorem next (h : t.Knows isOpen min skipped producers) (hlook : t.GoesOn isOpen min t') :
    t'.Knows isOpen min skipped producers := by
  cases hrest : t.rest with
  | nil =>
      rw [GoesOn, look, hrest] at hlook
      contradiction
  | cons p ps =>
      obtain ⟨seen, hseen, -, heq⟩ := h.exists_look hrest
      rw [GoesOn, heq] at hlook
      split at hlook
      case isTrue => contradiction
      case isFalse hmet =>
        split at hlook
        case isTrue => contradiction
        case isFalse =>
          obtain rfl := Sum.inr.inj hlook
          refine ⟨⟨seen ++ [p], ?_, rfl⟩, Nat.lt_of_not_le hmet, rfl⟩
          rw [List.append_assoc]
          exact hseen

/-- So does the whole run. -/
theorem run (h : t.Knows isOpen min skipped producers)
    (hrun : Relation.ReflTransGen (GoesOn isOpen min) t t') :
    t'.Knows isOpen min skipped producers := by
  induction hrun with
  | refl => exact h
  | tail _ hlook ih => exact ih.next hlook

/-- The bound is large enough to be lowered, and an answer before the last producer is certain
whatever is to come. -/
theorem look_certain (h : t.Knows isOpen min skipped producers) (hrest : t.rest = p :: ps) :
    0 < t.remaining ∧ ∃ seen, seen ++ p :: ps = producers ∧
      (t.look isOpen min = .inl true → min ≤ (seen ++ [p]).countP isOpen) ∧
      (t.look isOpen min = .inl false → (seen ++ [p]).countP isOpen + ps.length < min) := by
  obtain ⟨seen, hseen, -, heq⟩ := h.exists_look hrest
  refine ⟨?_, seen, hseen, ?_, ?_⟩
  · rw [h.remaining_eq, hrest, List.length_cons]
    omega
  · intro hyes
    rw [heq] at hyes
    split at hyes
    case isTrue hmet => exact hmet
    case isFalse => split at hyes <;> simp at hyes
  · intro hno
    rw [heq] at hno
    split at hno
    case isTrue => simp at hno
    case isFalse =>
      split at hno
      case isTrue hfew => omega
      case isFalse => contradiction

end Knows

/-! ### Main statement -/

theorem answer_start (isOpen : NodeId → Bool) (hmin : 0 < min) (authored placed : List NodeId) :
    (start authored placed).answer isOpen min =
      decide (min ≤ authored.countP isOpen + (placed.filter (· ∉ authored)).countP isOpen) := by
  have hlength : (authored ++ placed.filter (!authored.contains ·)).length ≤
      authored.length + placed.length := by
    rw [List.length_append]
    exact Nat.add_le_add_left (List.length_filter_le _ _) _
  have hfilter : placed.filter (!authored.contains ·) = placed.filter (· ∉ authored) :=
    List.filter_congr fun p _ => by simp
  have htally := tally_eq isOpen _ hmin hlength
  rw [Nat.zero_add, List.countP_append, hfilter] at htally
  rw [answer, start]
  simpa only [hfilter] using htally

/-- A count gate asks whether its threshold is met by the open parents of the resource, each as
often as it is named, and the open placements that are no parents. However early the tally ends, no
answer is given that another look could change. So neither list has to be in a certain order, and
more open nodes never turn a yes into a no. -/
theorem countHolds_tally (isOpen : NodeId → Bool) (hmin : 0 < min) (authored placed : List NodeId) :
    (∀ (r : Reader) (resource : NodeId) (others : List NodeId),
      r.parents resource = authored → r.placements resource = placed →
        r.countHolds isOpen min (resource :: others) = (start authored placed).answer isOpen min) ∧
    (∀ t : Tally, t.answer isOpen min = Sum.elim id (answer isOpen min) (t.look isOpen min)) ∧
    ((start authored placed).answer isOpen min = true ↔
      min ≤ authored.countP isOpen + (placed.filter (· ∉ authored)).countP isOpen) ∧
    (∀ t, Relation.ReflTransGen (GoesOn isOpen min) (start authored placed) t →
      t.rest.length ≤ t.remaining ∧
      ∀ p ps, t.rest = p :: ps → 0 < t.remaining ∧
        ∃ seen, seen ++ p :: ps = (start authored placed).rest ∧
          (t.look isOpen min = .inl true → min ≤ (seen ++ [p]).countP isOpen) ∧
          (t.look isOpen min = .inl false → (seen ++ [p]).countP isOpen + ps.length < min)) ∧
    (∀ authored' placed' : List NodeId, authored.Perm authored' → placed.Perm placed' →
      (start authored' placed').answer isOpen min = (start authored placed).answer isOpen min) ∧
    ∀ isOpen' : NodeId → Bool, (∀ p, isOpen p = true → isOpen' p = true) →
      (start authored placed).answer isOpen min = true →
        (start authored placed).answer isOpen' min = true := by
  refine ⟨?_, answer_eq_look isOpen min, ?_, ?_, ?_, ?_⟩
  · rintro r resource others rfl rfl
    rw [countHolds, if_neg (Nat.ne_of_gt hmin)]
    rfl
  · rw [answer_start isOpen hmin, decide_eq_true_iff]
  · intro t hrun
    have hknows := (knows_start isOpen hmin authored placed).run hrun
    exact ⟨hknows.remaining_eq ▸ Nat.le_add_right _ _, fun p ps => hknows.look_certain⟩
  · intro authored' placed' hauthored hplaced
    have hfilter : placed'.filter (· ∉ authored') = placed'.filter (· ∉ authored) :=
      List.filter_congr fun p _ => by simp only [hauthored.mem_iff]
    rw [answer_start isOpen hmin, answer_start isOpen hmin, hfilter, hauthored.countP_eq,
      (hplaced.filter _).countP_eq]
  · intro isOpen' hle hanswer
    rw [answer_start _ hmin, decide_eq_true_iff] at hanswer ⊢
    exact Nat.le_trans hanswer (Nat.add_le_add (List.countP_mono_left fun p _ => hle p)
      (List.countP_mono_left fun p _ => hle p))

/-- Parent 1 is named twice and placed once more. After two looks the answer is no, though the bound
still counts the placement that is passed over. -/
theorem countHolds_tally_key : 0 < 3 ∧
    (start [1, 1] [1, 2]).answer (· == 2) 3 = false ∧
    ∃ t : Tally, t.rest = [1, 2] ∧ t.look (· == 2) 3 = .inl false ∧
      t.rest.length ≤ t.remaining := by
  obtain ⟨-, -, hanswer, hrun, -⟩ := countHolds_tally (· == 2) (by decide : 0 < 3) [1, 1] [1, 2]
  refine ⟨by decide, ?_, ⟨0, 3, [1, 2]⟩, rfl, by decide, ?_⟩
  · rw [← Bool.not_eq_true, hanswer]
    decide
  · exact (hrun _ (.single rfl)).1

end Tally

end Progression.Reader

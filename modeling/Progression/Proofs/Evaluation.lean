import Mathlib.Data.List.Nodup
import Progression.Reach

/-!
What a node asks of the open nodes, without the order in which the evaluator asks it.

The evaluator of a count gate stops as soon as its answer is certain. Here the gate is
stated as a plain comparison with the number of open producers, and the two are proved
equal. The rule of a kind is stated over any type of parents, so that the same rule reads
node ids, names and gates written in place.
-/

namespace Progression

namespace Kind

variable {α β : Type}

/-- The rule of a kind, given the parents of a gate and the producers of its first parent.
Only a count gate looks at producers. -/
def opens (kind : Kind) (difficulty : Difficulty) (isOpen : α → Bool)
    (parents producers : List α) : Bool :=
  (!kind.isHard || difficulty.allowsHard) &&
    match kind.combinator with
    | .all => parents.all isOpen
    | .any => parents.any isOpen
    | .atLeast min => decide (min.toNat ≤ producers.countP isOpen)

/-- The rule of a node: any open placement opens it, and a node that has placements and no
parents opens in no other way. -/
def opensPlaced (kind : Kind) (difficulty : Difficulty) (isOpen : α → Bool)
    (parents producers placements : List α) : Bool :=
  placements.any isOpen ||
    ((placements.isEmpty || !parents.isEmpty) && kind.opens difficulty isOpen parents producers)

theorem all_eq_of_agree {isOpen isOpen' : α → Bool} {l : List α}
    (h : ∀ p ∈ l, isOpen p = isOpen' p) : l.all isOpen = l.all isOpen' := by
  rw [Bool.eq_iff_iff, List.all_eq_true, List.all_eq_true]
  exact forall₂_congr fun p hp => by rw [h p hp]

theorem any_eq_of_agree {isOpen isOpen' : α → Bool} {l : List α}
    (h : ∀ p ∈ l, isOpen p = isOpen' p) : l.any isOpen = l.any isOpen' := by
  rw [Bool.eq_iff_iff, List.any_eq_true, List.any_eq_true]
  exact exists_congr fun p => and_congr_right fun hp => by rw [h p hp]

theorem opens_map (kind : Kind) (difficulty : Difficulty) (isOpen : β → Bool) (f : α → β)
    (parents producers : List α) :
    kind.opens difficulty isOpen (parents.map f) (producers.map f) =
      kind.opens difficulty (isOpen ∘ f) parents producers := by
  simp only [opens, List.all_map, List.any_map, List.countP_map]

theorem opensPlaced_map (kind : Kind) (difficulty : Difficulty) (isOpen : β → Bool) (f : α → β)
    (parents producers placements : List α) :
    kind.opensPlaced difficulty isOpen (parents.map f) (producers.map f) (placements.map f) =
      kind.opensPlaced difficulty (isOpen ∘ f) parents producers placements := by
  simp only [opensPlaced, opens_map, List.any_map, List.isEmpty_map]

theorem isCount_of_combinator {kind : Kind} {min : UInt32}
    (h : kind.combinator = .atLeast min) : kind.isCount = true := by
  cases kind <;> simp_all [combinator, isCount]

theorem opens_congr {kind : Kind} {difficulty : Difficulty} {isOpen isOpen' : α → Bool}
    {parents producers : List α} (hparents : ∀ p ∈ parents, isOpen p = isOpen' p)
    (hproducers : kind.isCount = true → ∀ p ∈ producers, isOpen p = isOpen' p) :
    kind.opens difficulty isOpen parents producers =
      kind.opens difficulty isOpen' parents producers := by
  rw [opens, opens]
  congr 1
  cases hcombinator : kind.combinator with
  | all => exact all_eq_of_agree hparents
  | any => exact any_eq_of_agree hparents
  | atLeast min =>
      have hagree := hproducers (isCount_of_combinator hcombinator)
      have hcount : producers.countP isOpen = producers.countP isOpen' :=
        List.countP_congr fun p hp => by rw [hagree p hp]
      simp only [hcount]

theorem opensPlaced_congr {kind : Kind} {difficulty : Difficulty} {isOpen isOpen' : α → Bool}
    {parents producers placements : List α} (hparents : ∀ p ∈ parents, isOpen p = isOpen' p)
    (hproducers : kind.isCount = true → ∀ p ∈ producers, isOpen p = isOpen' p)
    (hplacements : ∀ p ∈ placements, isOpen p = isOpen' p) :
    kind.opensPlaced difficulty isOpen parents producers placements =
      kind.opensPlaced difficulty isOpen' parents producers placements := by
  rw [opensPlaced, opensPlaced, any_eq_of_agree hplacements, opens_congr hparents hproducers]

/-- Producers and placements may come in any order. -/
theorem opensPlaced_perm {kind : Kind} {difficulty : Difficulty} {isOpen : α → Bool}
    {parents producers producers' placements placements' : List α}
    (hproducers : producers.Perm producers') (hplacements : placements.Perm placements') :
    kind.opensPlaced difficulty isOpen parents producers placements =
      kind.opensPlaced difficulty isOpen parents producers' placements' := by
  have hany : placements.any isOpen = placements'.any isOpen := hplacements.any_eq
  have hempty : placements.isEmpty = placements'.isEmpty := hplacements.isEmpty_eq
  have hcount : producers.countP isOpen = producers'.countP isOpen := hproducers.countP_eq isOpen
  simp only [opensPlaced, opens, hany, hempty, hcount]

theorem opens_mono {kind : Kind} {difficulty : Difficulty} {isOpen isOpen' : α → Bool}
    (hle : ∀ p, isOpen p = true → isOpen' p = true) {parents producers : List α}
    (h : kind.opens difficulty isOpen parents producers = true) :
    kind.opens difficulty isOpen' parents producers = true := by
  rw [opens, Bool.and_eq_true] at h ⊢
  refine ⟨h.1, ?_⟩
  have hopen := h.2
  cases hcombinator : kind.combinator with
  | all =>
      simp only [hcombinator, List.all_eq_true] at hopen ⊢
      exact fun p hp => hle p (hopen p hp)
  | any =>
      simp only [hcombinator, List.any_eq_true] at hopen ⊢
      obtain ⟨p, hp, hpOpen⟩ := hopen
      exact ⟨p, hp, hle p hpOpen⟩
  | atLeast min =>
      rw [hcombinator] at hopen
      exact decide_eq_true <|
        Nat.le_trans (of_decide_eq_true hopen) (List.countP_mono_left fun p _ => hle p)

theorem opensPlaced_mono {kind : Kind} {difficulty : Difficulty} {isOpen isOpen' : α → Bool}
    (hle : ∀ p, isOpen p = true → isOpen' p = true) {parents producers placements : List α}
    (h : kind.opensPlaced difficulty isOpen parents producers placements = true) :
    kind.opensPlaced difficulty isOpen' parents producers placements = true := by
  rw [opensPlaced, Bool.or_eq_true, List.any_eq_true, Bool.and_eq_true] at h ⊢
  rcases h with ⟨p, hp, hpOpen⟩ | ⟨hplain, hopen⟩
  · exact Or.inl ⟨p, hp, hle p hpOpen⟩
  · exact Or.inr ⟨hplain, opens_mono hle hopen⟩

/-- More producers and placements never close a node, unless it has no parents and gets its
first placement. -/
theorem opensPlaced_of_more {kind : Kind} {difficulty : Difficulty} {isOpen : α → Bool}
    {parents producers producers' placements placements' : List α}
    (hproducers : producers.countP isOpen ≤ producers'.countP isOpen)
    (hplacements : placements ⊆ placements')
    (hfirst : parents = [] → placements = [] → placements' = [])
    (h : kind.opensPlaced difficulty isOpen parents producers placements = true) :
    kind.opensPlaced difficulty isOpen parents producers' placements' = true := by
  simp only [opensPlaced, opens, Bool.or_eq_true, Bool.and_eq_true, List.any_eq_true] at h ⊢
  rcases h with ⟨p, hp, hopen⟩ | ⟨hplain, haccepts, hopen⟩
  · exact Or.inl ⟨p, hplacements hp, hopen⟩
  · refine Or.inr ⟨?_, haccepts, ?_⟩
    · rcases hplain with hnone | hparents
      · by_cases hnil : parents = []
        · left
          rw [hfirst hnil (List.isEmpty_iff.1 hnone), List.isEmpty_nil]
        · right
          simp [hnil]
      · exact Or.inr hparents
    · cases hcombinator : kind.combinator with
      | all => simpa only [hcombinator] using hopen
      | any => simpa only [hcombinator] using hopen
      | atLeast min =>
          rw [hcombinator] at hopen
          exact decide_eq_true (Nat.le_trans (of_decide_eq_true hopen) hproducers)

end Kind

namespace Reader

/-! ### Counting with early exits -/

/-- Neither exit of the tally changes its answer. `remaining` may be too large, never too
small. -/
theorem tally_eq (isOpen : NodeId → Bool) {min : Nat} :
    ∀ (producers : List NodeId) {satisfied remaining : Nat}, satisfied < min →
      producers.length ≤ remaining →
        tally isOpen min satisfied remaining producers =
          decide (min ≤ satisfied + producers.countP isOpen)
  | [], satisfied, remaining, _, _ => by rw [tally, List.countP_nil, Nat.add_zero]
  | p :: ps, satisfied, remaining, hmin, hremaining => by
      have hlength : ps.length ≤ remaining - 1 := by
        rw [List.length_cons] at hremaining
        omega
      have hbound : ps.countP isOpen ≤ ps.length := List.countP_le_length
      rw [tally]
      cases hp : isOpen p with
      | true =>
          simp only [List.countP_cons, hp, if_true, Bool.true_and, decide_eq_true_eq]
          split
          · exact (decide_eq_true (by omega)).symm
          · split
            · exact (decide_eq_false (by omega)).symm
            · rw [tally_eq isOpen ps (by omega) hlength]
              congr 2
              omega
      | false =>
          simp only [List.countP_cons, hp, Bool.false_eq_true, if_false, Bool.false_and]
          split
          · exact (decide_eq_false (by omega)).symm
          · rw [tally_eq isOpen ps hmin hlength]
            rfl

/-- What a count gate counts: the parents of the first parent, then those of its placements
that are not among them. -/
def producers (r : Reader) : List NodeId → List NodeId
  | [] => []
  | resource :: _ =>
    r.parents resource ++ (r.placements resource).filter (!(r.parents resource).contains ·)

theorem countHolds_eq (r : Reader) (isOpen : NodeId → Bool) (min : Nat)
    (parents : List NodeId) :
    r.countHolds isOpen min parents = decide (min ≤ (r.producers parents).countP isOpen) := by
  unfold countHolds
  by_cases hzero : min = 0
  · simp [hzero]
  · rw [if_neg hzero]
    cases parents with
    | nil => simp [producers, hzero]
    | cons resource rest =>
        -- Placements that are parents too are skipped but stay in the bound.
        have hlength : (r.producers (resource :: rest)).length ≤
            (r.parents resource).length + (r.placements resource).length := by
          rw [producers, List.length_append]
          exact Nat.add_le_add_left (List.length_filter_le _ _) _
        have htally := tally_eq isOpen _ (Nat.pos_of_ne_zero hzero) hlength
        rw [Nat.zero_add] at htally
        exact htally

/-! ### One node -/

theorem holds_eq (r : Reader) (difficulty : Difficulty) (isOpen : NodeId → Bool)
    (id : NodeId) :
    r.holds difficulty isOpen id =
      (r.kind? id).any fun kind =>
        kind.opensPlaced difficulty isOpen (r.parents id) (r.producers (r.parents id))
          (r.placements id) := by
  rw [holds]
  cases hkind : r.kind? id with
  | none => rfl
  | some kind =>
      have hcount := countHolds_eq r isOpen
      simp only [Option.any_some, Kind.opensPlaced, Kind.opens]
      cases (r.placements id).any isOpen <;> cases (r.placements id).isEmpty <;>
        cases (r.parents id).isEmpty <;> cases kind.isHard <;> cases difficulty.allowsHard <;>
        cases kind.combinator <;> simp [hcount]

/-- More open nodes never close a node. -/
theorem holds_mono {r : Reader} {difficulty : Difficulty} {isOpen isOpen' : NodeId → Bool}
    (hle : ∀ p, isOpen p = true → isOpen' p = true) {id : NodeId}
    (h : r.holds difficulty isOpen id = true) : r.holds difficulty isOpen' id = true := by
  rw [holds_eq, Option.any_eq_true] at h ⊢
  obtain ⟨kind, hkind, hopen⟩ := h
  exact ⟨kind, hkind, Kind.opensPlaced_mono hle hopen⟩

/-- A node looks at nothing but its parents, its placements and its producers. -/
theorem holds_congr {r : Reader} {difficulty : Difficulty} {isOpen isOpen' : NodeId → Bool}
    {id : NodeId} (hparents : ∀ p ∈ r.parents id, isOpen p = isOpen' p)
    (hproducers : (r.kind? id).any Kind.isCount = true →
      ∀ p ∈ r.producers (r.parents id), isOpen p = isOpen' p)
    (hplacements : ∀ p ∈ r.placements id, isOpen p = isOpen' p) :
    r.holds difficulty isOpen id = r.holds difficulty isOpen' id := by
  rw [holds_eq, holds_eq]
  cases hkind : r.kind? id with
  | none => rfl
  | some kind =>
      rw [hkind] at hproducers
      exact Kind.opensPlaced_congr hparents hproducers hplacements

end Reader

end Progression

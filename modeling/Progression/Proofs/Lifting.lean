import Mathlib.Data.List.Forall2
import Mathlib.Data.List.Nodup
import Mathlib.Data.List.Perm.Basic
import Progression.Proofs.Naming

/-!
Rounds of lifting, seen from one rule. The names that a rule gives depend on the names taken
before flattening and on nothing that other rules do, so the rounds can be read rule by
rule: `expand` is a rule with everything that is ever lifted out of it, however many rounds
that takes, and the rounds together yield the expansions of all rules in another order.
-/

namespace Progression

namespace Parent

mutual

/-- How many gates written in place there are, at any depth. -/
def inlineCount : Parent → Nat
  | .named _ => 0
  | .inline _ parents => inlineCountAll parents + 1

def inlineCountAll : List Parent → Nat
  | [] => 0
  | p :: ps => p.inlineCount + inlineCountAll ps

end

theorem depth_le_depthAll {p : Parent} {ps : List Parent} (h : p ∈ ps) :
    p.depth ≤ depthAll ps := by
  induction ps with
  | nil => contradiction
  | cons q ps ih =>
      rw [depthAll]
      rcases List.mem_cons.1 h with rfl | h
      · exact Nat.le_max_left _ _
      · exact Nat.le_trans (ih h) (Nat.le_max_right _ _)

theorem depthAll_le {ps : List Parent} {n : Nat} (h : ∀ p ∈ ps, p.depth ≤ n) :
    depthAll ps ≤ n := by
  induction ps with
  | nil => exact Nat.zero_le n
  | cons p ps ih =>
      rw [depthAll]
      exact Nat.max_le.2 ⟨h p List.mem_cons_self, ih fun q hq => h q (List.mem_cons_of_mem p hq)⟩

@[simp] theorem inlineCountAll_append (ps qs : List Parent) :
    inlineCountAll (ps ++ qs) = inlineCountAll ps + inlineCountAll qs := by
  induction ps with
  | nil => rw [List.nil_append, inlineCountAll, Nat.zero_add]
  | cons p ps ih => rw [List.cons_append, inlineCountAll, inlineCountAll, ih, Nat.add_assoc]

theorem references_subset {p : Parent} {ps : List Parent} (h : p ∈ ps) :
    p.references ⊆ referencesAll ps := by
  induction ps with
  | nil => contradiction
  | cons q ps ih =>
      rw [referencesAll]
      rcases List.mem_cons.1 h with rfl | h
      · exact List.subset_append_left _ _
      · exact List.Subset.trans (ih h) (List.subset_append_right _ _)

end Parent

/-- How many gates are written in place inside the gate, at any depth. -/
def Gate.inlineCount (gate : Gate) : Nat :=
  Parent.inlineCountAll gate.parents

namespace Flatten

variable {taken : Std.TreeSet String}

/-! ### One gate's parents -/

section LiftParents

variable (owner : Rule) (taken : Std.TreeSet String)

@[simp] theorem liftParents_named (k : Nat) (name : String) (ps : List Parent) :
    liftParents owner taken k (.named name :: ps) =
      (name :: (liftParents owner taken k ps).1, (liftParents owner taken k ps).2) := rfl

/-- The number of the next gate that is lifted. -/
def nextNumber (k : Nat) : Nat :=
  freeNumber owner.name taken (k + 1)

/-- The rule that is made of a gate. -/
def liftedRule (k : Nat) (kind : Kind) (parents : List Parent) : Rule :=
  ⟨numbered owner.name (nextNumber owner taken k), ⟨kind, parents⟩, owner.source, false⟩

@[simp] theorem liftParents_inline (k : Nat) (kind : Kind) (parents ps : List Parent) :
    liftParents owner taken k (.inline kind parents :: ps) =
      (numbered owner.name (nextNumber owner taken k) ::
          (liftParents owner taken (nextNumber owner taken k) ps).1,
        liftedRule owner taken k kind parents ::
          (liftParents owner taken (nextNumber owner taken k) ps).2) := rfl

/-- The rules that are made are the gates written in place, in order. -/
@[simp] theorem map_inline_liftParents (k : Nat) (ps : List Parent) :
    (liftParents owner taken k ps).2.map (·.gate.inline) = ps.filter Parent.isInline := by
  induction ps generalizing k with
  | nil => rfl
  | cons p ps ih =>
      cases p with
      | named name => exact ih k
      | inline kind parents => exact congrArg (.inline kind parents :: ·) (ih _)

/-- Names stand for the parents in whose places they are. -/
theorem forall₂_liftParents {R : String → Parent → Prop} (k : Nat) (ps : List Parent)
    (hnamed : ∀ name, .named name ∈ ps → R name (.named name))
    (hlifted : ∀ q ∈ (liftParents owner taken k ps).2, R q.name q.gate.inline) :
    List.Forall₂ R (liftParents owner taken k ps).1 ps := by
  induction ps generalizing k with
  | nil => exact .nil
  | cons p ps ih =>
      have hrest : ∀ name, .named name ∈ ps → R name (.named name) :=
        fun name h => hnamed name (List.mem_cons_of_mem p h)
      cases p with
      | named name =>
          rw [liftParents_named] at hlifted ⊢
          exact .cons (hnamed name List.mem_cons_self) (ih k hrest hlifted)
      | inline kind parents =>
          rw [liftParents_inline] at hlifted ⊢
          obtain ⟨hfirst, hothers⟩ := List.forall_mem_cons.1 hlifted
          exact .cons hfirst (ih _ hrest hothers)

/-- Replacing names by gates again gives the parents back. -/
theorem map_liftParents {f : String → Parent} (k : Nat) (ps : List Parent)
    (hnamed : ∀ name, .named name ∈ ps → f name = .named name)
    (hlifted : ∀ q ∈ (liftParents owner taken k ps).2, f q.name = q.gate.inline) :
    (liftParents owner taken k ps).1.map f = ps := by
  rw [← List.forall₂_eq_eq_eq, List.forall₂_map_left_iff]
  exact forall₂_liftParents owner taken k ps hnamed hlifted

theorem name_mem_liftParents (k : Nat) (ps : List Parent) :
    ∀ q ∈ (liftParents owner taken k ps).2, q.name ∈ (liftParents owner taken k ps).1 := by
  induction ps generalizing k with
  | nil => simp [liftParents]
  | cons p ps ih =>
      intro q hq
      cases p with
      | named name => exact List.mem_cons_of_mem name (ih k q hq)
      | inline kind parents =>
          rw [liftParents_inline] at hq ⊢
          rcases List.mem_cons.1 hq with rfl | hq
          · exact List.mem_cons_self
          · exact List.mem_cons_of_mem _ (ih _ q hq)

/-- Given names carry rising numbers and are free. -/
theorem names_liftParents (k : Nat) (ps : List Parent) :
    ∃ numbers : List Nat,
      (liftParents owner taken k ps).2.map Rule.name = numbers.map (numbered owner.name) ∧
      numbers.Pairwise (· < ·) ∧
      ∀ j ∈ numbers, k < j ∧ taken.contains (numbered owner.name j) = false := by
  induction ps generalizing k with
  | nil => exact ⟨[], rfl, List.Pairwise.nil, by simp⟩
  | cons p ps ih =>
      cases p with
      | named name => exact ih k
      | inline kind parents =>
          have hspec := freeNumber_spec owner.name taken (k + 1)
          obtain ⟨numbers, hnames, hrising, hfree⟩ := ih (nextNumber owner taken k)
          have hlt : k < nextNumber owner taken k := hspec.1
          refine ⟨nextNumber owner taken k :: numbers, ?_, ?_, ?_⟩
          · rw [liftParents_inline, List.map_cons, hnames]
            rfl
          · exact List.pairwise_cons.2 ⟨fun j hj => (hfree j hj).1, hrising⟩
          · intro j hj
            rcases List.mem_cons.1 hj with rfl | hj
            · exact ⟨hlt, hspec.2.1⟩
            · exact ⟨Nat.lt_trans hlt (hfree j hj).1, (hfree j hj).2⟩

/-- A made rule keeps its owner's source and is no item. -/
theorem mem_liftParents (k : Nat) (ps : List Parent) :
    ∀ q ∈ (liftParents owner taken k ps).2,
      .inline q.gate.kind q.gate.parents ∈ ps ∧ q.source = owner.source ∧
        q.placeable = false := by
  induction ps generalizing k with
  | nil => simp [liftParents]
  | cons p ps ih =>
      intro q hq
      cases p with
      | named name =>
          obtain ⟨hmem, hrest⟩ := ih k q hq
          exact ⟨List.mem_cons_of_mem _ hmem, hrest⟩
      | inline kind parents =>
          rw [liftParents_inline] at hq
          rcases List.mem_cons.1 hq with rfl | hq
          · exact ⟨List.mem_cons_self, rfl, rfl⟩
          · obtain ⟨hmem, hrest⟩ := ih _ q hq
            exact ⟨List.mem_cons_of_mem _ hmem, hrest⟩

/-- How often a name is mentioned: as often as before, and once for each gate that the name
was given to. -/
theorem count_liftParents (name : String) (k : Nat) (ps : List Parent) :
    (liftParents owner taken k ps).1.count name +
        ((liftParents owner taken k ps).2.flatMap (·.gate.references)).count name =
      (Parent.referencesAll ps).count name +
        ((liftParents owner taken k ps).2.map Rule.name).count name := by
  induction ps generalizing k with
  | nil => rfl
  | cons p ps ih =>
      cases p with
      | named other =>
          have hrest := ih k
          rw [liftParents_named, Parent.referencesAll, Parent.references]
          simp only [List.count_cons, List.singleton_append]
          omega
      | inline kind parents =>
          have hrest := ih (nextNumber owner taken k)
          have hname : (liftedRule owner taken k kind parents).name =
              numbered owner.name (nextNumber owner taken k) := rfl
          have hgate : (liftedRule owner taken k kind parents).gate.references =
              Parent.referencesAll parents := rfl
          rw [liftParents_inline, Parent.referencesAll, Parent.references]
          simp only [List.flatMap_cons, List.map_cons, List.count_append, List.count_cons, hname,
            hgate]
          omega

/-- The gates among the parents hold all gates there are. -/
@[simp] theorem inlineCount_liftParents (k : Nat) (ps : List Parent) :
    Parent.inlineCountAll ((liftParents owner taken k ps).2.map (·.gate.inline)) =
      Parent.inlineCountAll ps := by
  induction ps generalizing k with
  | nil => rfl
  | cons p ps ih =>
      cases p with
      | named name =>
          rw [liftParents_named, Parent.inlineCountAll, Parent.inlineCount, Nat.zero_add]
          exact ih k
      | inline kind parents =>
          rw [liftParents_inline, List.map_cons, Parent.inlineCountAll, Parent.inlineCountAll, ih]
          rfl

end LiftParents

/-! ### One rule -/

@[simp] theorem lift_fst (taken : Std.TreeSet String) (r : Rule) :
    (lift taken r).1 =
      ⟨r.name, r.gate.kind, (liftParents r taken 0 r.gate.parents).1, r.source, r.placeable⟩ :=
  rfl

@[simp] theorem lift_snd (taken : Std.TreeSet String) (r : Rule) :
    (lift taken r).2 = (liftParents r taken 0 r.gate.parents).2 := rfl

theorem depth_lt_of_mem_lift {r q : Rule} (h : q ∈ (lift taken r).2) :
    q.gate.depth < r.gate.depth := by
  have hmem := (mem_liftParents r taken 0 r.gate.parents q h).1
  have hdepth := Parent.depth_le_depthAll hmem
  rw [Parent.depth] at hdepth
  exact hdepth

/-- A rule nests one level deeper than the rules that are made of it. -/
theorem depth_le_of_lift (taken : Std.TreeSet String) {r : Rule} {n : Nat}
    (h : ∀ q ∈ (lift taken r).2, q.gate.depth < n) : r.gate.depth ≤ n := by
  apply Parent.depthAll_le
  intro p hp
  cases p with
  | named name => exact Nat.zero_le n
  | inline kind parents =>
      have hmem : Parent.inline kind parents ∈ r.gate.parents.filter Parent.isInline :=
        List.mem_filter.2 ⟨hp, rfl⟩
      rw [← map_inline_liftParents r taken 0, ← lift_snd] at hmem
      obtain ⟨q, hq, heq⟩ := List.mem_map.1 hmem
      have hlt := h q hq
      rw [← heq]
      show (Parent.inline q.gate.kind q.gate.parents).depth ≤ n
      rw [Parent.depth]
      exact hlt

theorem references_of_mem_lift {r q : Rule} (h : q ∈ (lift taken r).2) :
    q.gate.references ⊆ r.gate.references := by
  have hmem := (mem_liftParents r taken 0 r.gate.parents q h).1
  have hsubset := Parent.references_subset hmem
  rw [Parent.references] at hsubset
  exact hsubset

theorem descends_of_mem_lift {r q : Rule} (h : q ∈ (lift taken r).2) :
    ∃ k, q.name = numbered r.name k ∧ Descends taken r.name q.name := by
  obtain ⟨numbers, hnames, -, hfree⟩ := names_liftParents r taken 0 r.gate.parents
  have hmem : q.name ∈ numbers.map (numbered r.name) := hnames ▸ List.mem_map_of_mem h
  obtain ⟨k, hk, hq⟩ := List.mem_map.1 hmem
  refine ⟨k, hq.symm, ?_⟩
  rw [← hq]
  exact .step .self (hfree k hk).2

/-- A rule without its gates, with all rules that come of them. -/
def expand (taken : Std.TreeSet String) (r : Rule) : List FlatRule :=
  (lift taken r).1 :: (lift taken r).2.attach.flatMap fun q => expand taken q.1
termination_by r.gate.depth
decreasing_by exact depth_lt_of_mem_lift q.2

theorem expand_eq (taken : Std.TreeSet String) (r : Rule) :
    expand taken r = (lift taken r).1 :: (lift taken r).2.flatMap (expand taken) := by
  rw [expand]
  rw [List.flatMap_def, List.flatMap_def, List.attach_map_val]

/-- To prove a property of a rule one may assume it of the rules that are made of it. -/
theorem lift_induction (taken : Std.TreeSet String) {P : Rule → Prop}
    (step : ∀ r, (∀ q ∈ (lift taken r).2, P q) → P r) (r : Rule) : P r := by
  induction r using expand.induct taken with
  | case1 r ih => exact step r fun q hq => ih ⟨q, hq⟩

@[simp] theorem tail_expand (taken : Std.TreeSet String) (r : Rule) :
    (expand taken r).tail = (lift taken r).2.flatMap (expand taken) := by
  rw [expand_eq]
  rfl

theorem mem_expand_iff {r : Rule} {f : FlatRule} :
    f ∈ expand taken r ↔ f = (lift taken r).1 ∨ ∃ q ∈ (lift taken r).2, f ∈ expand taken q := by
  rw [expand_eq, List.mem_cons, List.mem_flatMap]

/-! ### What an expansion holds -/

theorem descends_of_mem_expand (r : Rule) :
    ∀ f ∈ expand taken r, Descends taken r.name f.name := by
  induction r using lift_induction taken with
  | step r ih =>
      intro f hf
      rcases mem_expand_iff.1 hf with rfl | ⟨q, hq, hf⟩
      · exact .self
      · obtain ⟨k, -, hdescends⟩ := descends_of_mem_lift hq
        exact hdescends.trans (ih q hq f hf)

/-- Names below the rule itself are longer than its own. -/
theorem length_lt_of_mem_tail {r : Rule} {f : FlatRule} (h : f ∈ (expand taken r).tail) :
    r.name.length < f.name.length := by
  rw [tail_expand, List.mem_flatMap] at h
  obtain ⟨q, hq, hf⟩ := h
  obtain ⟨k, hk, -⟩ := descends_of_mem_lift hq
  have hle := (descends_of_mem_expand q f hf).length_le
  rw [hk] at hle
  exact Nat.lt_of_lt_of_le (length_lt_numbered r.name k) hle

theorem free_of_mem_tail {r : Rule} {f : FlatRule} (h : f ∈ (expand taken r).tail) :
    taken.contains f.name = false := by
  have hmem : f ∈ expand taken r := List.mem_of_mem_tail h
  apply (descends_of_mem_expand r f hmem).free_of_ne
  intro heq
  have hlt := length_lt_of_mem_tail h
  rw [heq] at hlt
  exact Nat.lt_irrefl _ hlt

/-- No name is given twice within an expansion. -/
theorem nodup_names_expand (r : Rule) : ((expand taken r).map FlatRule.name).Nodup := by
  induction r using lift_induction taken with
  | step r ih =>
      rw [expand_eq, List.map_cons, List.nodup_cons]
      constructor
      · intro hmem
        obtain ⟨f, hf, heq⟩ := List.mem_map.1 hmem
        rw [← tail_expand] at hf
        have hlt := length_lt_of_mem_tail hf
        rw [heq, lift_fst] at hlt
        exact Nat.lt_irrefl _ hlt
      · obtain ⟨numbers, hnames, hrising, -⟩ := names_liftParents r taken 0 r.gate.parents
        rw [List.map_flatMap, List.nodup_flatMap]
        refine ⟨fun q hq => ih q hq, ?_⟩
        -- Two made rules differ in their numbers, so their chains never meet.
        have hdiffer : (lift taken r).2.Pairwise fun p q => p.name ≠ q.name := by
          rw [← List.pairwise_map (f := Rule.name), lift_snd, hnames, List.pairwise_map]
          refine hrising.imp fun {j k} hlt heq => ?_
          exact Nat.ne_of_lt hlt (numbered_inj heq).2
        refine hdiffer.imp_of_mem fun {p q} hp hq hne => ?_
        intro x hxp hxq
        obtain ⟨f, hf, rfl⟩ := List.mem_map.1 hxp
        obtain ⟨f', hf', hsame⟩ := List.mem_map.1 hxq
        have hchain := descends_of_mem_expand p f hf
        have hchain' := hsame ▸ descends_of_mem_expand q f' hf'
        obtain ⟨j, hj, -⟩ := descends_of_mem_lift hp
        obtain ⟨k, hk, -⟩ := descends_of_mem_lift hq
        rw [hj] at hchain hne
        rw [hk] at hchain' hne
        rcases hchain.comparable hchain' with h | h
        · exact hne (congrArg (numbered r.name) h.number_eq)
        · exact hne (congrArg (numbered r.name) h.number_eq.symm)

/-- Mentions in an expansion: those in the rule, and each given name once. -/
theorem count_mentions_expand (taken : Std.TreeSet String) (name : String) (r : Rule) :
    ((expand taken r).flatMap FlatRule.parents).count name =
      r.gate.references.count name +
        ((expand taken r).tail.map FlatRule.name).count name := by
  induction r using lift_induction taken with
  | step r ih =>
      -- Rule by rule: the head of an expansion has a given name, which is mentioned outside.
      have hlifted : ∀ l : List Rule, (∀ q ∈ l, q ∈ (lift taken r).2) →
          ((l.flatMap (expand taken)).flatMap FlatRule.parents).count name +
              (l.map Rule.name).count name =
            (l.flatMap (·.gate.references)).count name +
              ((l.flatMap (expand taken)).map FlatRule.name).count name := by
        intro l
        induction l with
        | nil => exact fun _ => rfl
        | cons q l ihl =>
            intro hmem
            have hq := ih q (hmem q List.mem_cons_self)
            have hl := ihl fun p hp => hmem p (List.mem_cons_of_mem q hp)
            have hhead : (expand taken q).map FlatRule.name =
                q.name :: (expand taken q).tail.map FlatRule.name := by
              rw [expand_eq]
              rfl
            simp only [List.flatMap_cons, List.flatMap_append, List.map_append, List.map_cons,
              List.count_append, List.count_cons, hhead]
            omega
      have hown := count_liftParents r taken name 0 r.gate.parents
      have hrest := hlifted _ fun q hq => hq
      rw [← lift_snd] at hown
      rw [tail_expand, expand_eq, List.flatMap_cons, List.count_append, lift_fst]
      show (liftParents r taken 0 r.gate.parents).1.count name + _ =
        (Parent.referencesAll r.gate.parents).count name + _
      omega

@[simp] theorem length_expand (r : Rule) : (expand taken r).length = r.gate.inlineCount + 1 := by
  induction r using lift_induction taken with
  | step r ih =>
      have hlifted : ∀ l : List Rule, (∀ q ∈ l, q ∈ (lift taken r).2) →
          (l.flatMap (expand taken)).length = Parent.inlineCountAll (l.map (·.gate.inline)) := by
        intro l
        induction l with
        | nil => exact fun _ => rfl
        | cons q l ihl =>
            intro hl
            rw [List.flatMap_cons, List.length_append, List.map_cons, Parent.inlineCountAll,
              ih q (hl q List.mem_cons_self), ihl fun p hp => hl p (List.mem_cons_of_mem q hp)]
            rfl
      rw [expand_eq, List.length_cons, hlifted _ fun q hq => hq, lift_snd,
        inlineCount_liftParents]
      rfl

/-- Sources come from the rule; of its items only the rule itself may be one. -/
theorem source_of_mem_expand (r : Rule) :
    ∀ f ∈ expand taken r, f.source = r.source ∧
      (f = (lift taken r).1 ∨ f.placeable = false) := by
  induction r using lift_induction taken with
  | step r ih =>
      intro f hf
      rcases mem_expand_iff.1 hf with rfl | ⟨q, hq, hf⟩
      · exact ⟨rfl, Or.inl rfl⟩
      · obtain ⟨-, hsource, hplain⟩ := mem_liftParents r taken 0 r.gate.parents q hq
        obtain ⟨hf', hplaceable⟩ := ih q hq f hf
        refine ⟨hf'.trans hsource, Or.inr ?_⟩
        rcases hplaceable with rfl | hplaceable
        · exact hplain
        · exact hplaceable

/-! ### All rounds -/

/-- The rules of a round without their gates. -/
def stripped (taken : Std.TreeSet String) (pending : List Rule) : List FlatRule :=
  pending.map fun r => (lift taken r).1

/-- The rules that a round makes. -/
def lifted (taken : Std.TreeSet String) (pending : List Rule) : List Rule :=
  pending.flatMap fun r => (lift taken r).2

@[simp] theorem mem_lifted_iff {pending : List Rule} {q : Rule} :
    q ∈ lifted taken pending ↔ ∃ r ∈ pending, q ∈ (lift taken r).2 :=
  List.mem_flatMap

@[simp] theorem unzip_map_lift (taken : Std.TreeSet String) (pending : List Rule) :
    (pending.map (lift taken)).unzip =
      (stripped taken pending, pending.map fun r => (lift taken r).2) := by
  rw [List.unzip_eq_map, List.map_map, List.map_map]
  rfl

theorem flatten_map_lift (taken : Std.TreeSet String) (pending : List Rule) :
    (pending.map fun r => (lift taken r).2).flatten = lifted taken pending := by
  rw [lifted, List.flatMap_def]

theorem rounds_of_none {pending : List Rule} (hnone : lifted taken pending = [])
    (left : Nat) : rounds left taken pending = some (stripped taken pending, {}) := by
  have hempty : (lifted taken pending).isEmpty = true := List.isEmpty_iff.2 hnone
  cases left <;> rw [rounds] <;> simp only [unzip_map_lift, flatten_map_lift, hempty, if_true]

theorem rounds_zero {pending : List Rule} (hsome : lifted taken pending ≠ []) :
    rounds 0 taken pending = none := by
  have hempty : (lifted taken pending).isEmpty = false := List.isEmpty_eq_false_iff.2 hsome
  rw [rounds]
  simp only [unzip_map_lift, flatten_map_lift, hempty, Bool.false_eq_true, if_false]

theorem rounds_succ {pending : List Rule} (hsome : lifted taken pending ≠ []) (left : Nat) :
    rounds (left + 1) taken pending =
      (rounds left taken (lifted taken pending)).map fun (result : List FlatRule × FlattenStats) =>
        (stripped taken pending ++ result.1,
          ⟨result.2.rounds + 1, result.2.synthesized + (lifted taken pending).length⟩) := by
  have hempty : (lifted taken pending).isEmpty = false := List.isEmpty_eq_false_iff.2 hsome
  rw [rounds]
  simp only [unzip_map_lift, flatten_map_lift, hempty, Bool.false_eq_true, if_false]

/-- What the rounds yield: the expansions, one name for each given rule, and as many rounds
as the deepest rule nests. -/
structure Settles (taken : Std.TreeSet String) (pending : List Rule) (flat : List FlatRule)
    (stats : FlattenStats) : Prop where
  perm : flat.Perm (pending.flatMap (expand taken))
  synthesized : flat.length = pending.length + stats.synthesized
  depth_le : ∀ r ∈ pending, r.gate.depth ≤ stats.rounds
  rounds_le : stats.rounds = 0 ∨ ∃ r ∈ pending, stats.rounds ≤ r.gate.depth

theorem settles_of_none {pending : List Rule}
    (hnone : lifted taken pending = []) :
    Settles taken pending (stripped taken pending) {} := by
  have hlift : ∀ r ∈ pending, (lift taken r).2 = [] := List.flatMap_eq_nil_iff.1 hnone
  refine ⟨?_, ?_, ?_, Or.inl rfl⟩
  · rw [← List.flatMap_singleton' (stripped taken pending), stripped, List.flatMap_map]
    refine List.Perm.of_eq (List.flatMap_congr fun r hr => ?_)
    rw [expand_eq, hlift r hr]
    rfl
  · rw [stripped, List.length_map]
    rfl
  · intro r hr
    apply depth_le_of_lift taken
    rw [hlift r hr]
    exact fun q hq => absurd hq List.not_mem_nil

theorem settles_of_round {pending : List Rule} {later : List FlatRule} {stats : FlattenStats}
    (hsome : lifted taken pending ≠ [])
    (h : Settles taken (lifted taken pending) later stats) :
    Settles taken pending (stripped taken pending ++ later)
      ⟨stats.rounds + 1, stats.synthesized + (lifted taken pending).length⟩ := by
  refine ⟨?_, ?_, ?_, Or.inr ?_⟩
  · have hexpand : pending.flatMap (expand taken) =
        pending.flatMap fun r => [(lift taken r).1] ++ (lift taken r).2.flatMap (expand taken) :=
      List.flatMap_congr fun r _ => expand_eq taken r
    have hmap : stripped taken pending = pending.flatMap fun r => [(lift taken r).1] :=
      List.map_eq_flatMap
    rw [hexpand, hmap]
    refine ((h.perm.trans (.of_eq List.flatMap_assoc)).append_left _).trans ?_
    exact List.flatMap_append_perm pending _ _
  · rw [List.length_append, stripped, List.length_map, h.synthesized]
    dsimp only
    omega
  · intro r hr
    apply depth_le_of_lift taken
    intro q hq
    exact Nat.lt_succ_of_le (h.depth_le q (mem_lifted_iff.2 ⟨r, hr, hq⟩))
  · -- Some rule was made of a gate, and its owner nests one level deeper.
    have howner : ∃ q ∈ lifted taken pending, stats.rounds ≤ q.gate.depth := by
      rcases h.rounds_le with hzero | hdeep
      · obtain ⟨q, hq⟩ := List.exists_mem_of_ne_nil _ hsome
        exact ⟨q, hq, by omega⟩
      · exact hdeep
    obtain ⟨q, hq, hle⟩ := howner
    obtain ⟨r, hr, hqr⟩ := mem_lifted_iff.1 hq
    have hlt := depth_lt_of_mem_lift hqr
    exact ⟨r, hr, by dsimp only; omega⟩

theorem lifted_eq_nil {pending : List Rule} (hflat : ∀ r ∈ pending, r.gate.depth = 0) :
    lifted taken pending = [] := by
  rw [List.eq_nil_iff_forall_not_mem]
  intro q hq
  obtain ⟨r, hr, hqr⟩ := mem_lifted_iff.1 hq
  exact Nat.not_lt_zero _ (hflat r hr ▸ depth_lt_of_mem_lift hqr)

/-- The rounds end if they may go as deep as the rules nest. -/
theorem rounds_eq_some (taken : Std.TreeSet String) {left : Nat} {pending : List Rule}
    (hdepth : ∀ r ∈ pending, r.gate.depth ≤ left) :
    ∃ flat stats, rounds left taken pending = some (flat, stats) ∧
      Settles taken pending flat stats := by
  induction left generalizing pending with
  | zero =>
      have hnone : lifted taken pending = [] :=
        lifted_eq_nil fun r hr => Nat.le_zero.1 (hdepth r hr)
      exact ⟨_, _, rounds_of_none hnone 0, settles_of_none hnone⟩
  | succ left ih =>
      by_cases hnone : lifted taken pending = []
      · exact ⟨_, _, rounds_of_none hnone (left + 1), settles_of_none hnone⟩
      · have hdepth' : ∀ q ∈ lifted taken pending, q.gate.depth ≤ left := by
          intro q hq
          obtain ⟨r, hr, hqr⟩ := mem_lifted_iff.1 hq
          exact Nat.le_of_lt_succ (Nat.lt_of_lt_of_le (depth_lt_of_mem_lift hqr) (hdepth r hr))
        obtain ⟨later, stats, hrounds, hsettles⟩ := ih hdepth'
        refine ⟨_, _, ?_, settles_of_round hnone hsettles⟩
        rw [rounds_succ hnone, hrounds]
        rfl

end Flatten

end Progression

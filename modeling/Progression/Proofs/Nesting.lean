import Progression.Proofs.Printing

/-!
How deep read values nest. A draft never holds a value with more containers than there is room for
among those that are still open, since a container that closes too far inside is replaced by a value
without any. Main statement: no more containers sit inside each other than may be open at once in
any value that is read from a text.
-/

namespace Progression

/-- What is read of a list is read of its items. -/
theorem exists_of_mem_mapM {α β : Type} {read : α → Option β} {as : List α} {bs : List β}
    (h : as.mapM read = some bs) {b : β} (hb : b ∈ bs) : ∃ a ∈ as, read a = some b := by
  induction as generalizing bs with
  | nil =>
      obtain rfl := Option.some.inj h
      contradiction
  | cons a as ih =>
      rw [List.mapM_cons] at h
      obtain ⟨b', hb', h⟩ := Option.bind_eq_some_iff.1 h
      obtain ⟨bs', hbs', h⟩ := Option.bind_eq_some_iff.1 h
      obtain rfl := Option.some.inj h
      rcases List.mem_cons.1 hb with rfl | hb
      · exact ⟨a, List.mem_cons_self, hb'⟩
      · obtain ⟨a', ha', hread⟩ := ih hbs' hb
        exact ⟨a', List.mem_cons_of_mem a ha', hread⟩

namespace Json

/-! ### Depth of the parts -/

@[simp] theorem depthItems_le_iff {items : List Json} {n : Nat} :
    depthItems items ≤ n ↔ ∀ j ∈ items, j.depth ≤ n := by
  induction items with
  | nil => simp [depthItems]
  | cons j js ih => rw [depthItems, Nat.max_le, ih, List.forall_mem_cons]

@[simp] theorem depthMembers_le_iff {members : List (String × Json)} {n : Nat} :
    depthMembers members ≤ n ↔ ∀ m ∈ members, m.2.depth ≤ n := by
  induction members with
  | nil => simp [depthMembers]
  | cons m ms ih => rw [depthMembers, Nat.max_le, ih, List.forall_mem_cons]

theorem depth_lt_of_mem_items {items : List Json} {j : Json} (h : j ∈ items) :
    j.depth < (array items).depth :=
  Nat.lt_succ_of_le (depthItems_le_iff.1 (Nat.le_refl _) j h)

theorem depth_lt_of_mem_members {members : List (String × Json)} {m : String × Json}
    (h : m ∈ members) : m.2.depth < (object members).depth :=
  Nat.lt_succ_of_le (depthMembers_le_iff.1 (Nat.le_refl _) m h)

/-- A plain value is plain at any level that has room for its containers. -/
theorem IsPlain.of_depth_le {level level' : Nat} {j : Json} (h : j.IsPlain level)
    (hdepth : j.depth ≤ level') : j.IsPlain level' := by
  induction h generalizing level' with
  | null => exact .null
  | bool b => exact .bool b
  | nat hn => exact .nat hn
  | string s => exact .string s
  | array _ ih =>
      obtain ⟨n, rfl⟩ := Nat.exists_eq_succ_of_ne_zero (Nat.ne_zero_of_lt hdepth)
      exact .array fun j hj => ih j hj (depthItems_le_iff.1 (Nat.le_of_succ_le_succ hdepth) j hj)
  | object _ ih =>
      obtain ⟨n, rfl⟩ := Nat.exists_eq_succ_of_ne_zero (Nat.ne_zero_of_lt hdepth)
      exact .object fun m hm => ih m hm (depthMembers_le_iff.1 (Nat.le_of_succ_le_succ hdepth) m hm)

theorem isPlain_array {items : List Json} (h : ∀ j ∈ items, j.IsPlain j.depth) :
    (array items).IsPlain (array items).depth :=
  .array fun j hj => (h j hj).of_depth_le (depthItems_le_iff.1 (Nat.le_refl _) j hj)

theorem isPlain_object {members : List (String × Json)}
    (h : ∀ m ∈ members, m.2.IsPlain m.2.depth) :
    (object members).IsPlain (object members).depth :=
  .object fun m hm => (h m hm).of_depth_le (depthMembers_le_iff.1 (Nat.le_refl _) m hm)

/-! ### Words -/

namespace Token

/-- The value of a word has no containers. -/
def IsFlat (t : Token) : Prop :=
  ∀ j, t = .scalar j → j.depth = 0

theorem isFlat_of_punctuation? {c : Char} {t : Token} (h : punctuation? c = some t) : t.IsFlat := by
  rintro j rfl
  unfold punctuation? at h
  split at h <;> simp at h

theorem isFlat_of_ofNumber? {cs : List Char} {t : Token} (h : ofNumber? cs = some t) :
    t.IsFlat := by
  rintro j rfl
  unfold ofNumber? at h
  split at h
  · contradiction
  · cases h
    rfl
  · cases h
    rfl

theorem isFlat_of_ofName? {letters : List Char} {t : Token} (h : ofName? letters = some t) :
    t.IsFlat := by
  rintro j rfl
  unfold ofName? at h
  split at h
  · cases h
    rfl
  · split at h
    · cases h
      rfl
    · split at h
      · cases h
        rfl
      · contradiction

theorem isFlat_of_first? {c : Char} {cs rest : List Char} {t : Token}
    (h : first? c cs = some (t, rest)) : t.IsFlat := by
  unfold first? at h
  split at h
  next hpunctuation =>
    obtain ⟨rfl, -⟩ := Prod.mk.inj (Option.some.inj h)
    exact isFlat_of_punctuation? hpunctuation
  next =>
    split at h
    · obtain ⟨quoted, -, heq⟩ := Option.map_eq_some_iff.1 h
      obtain ⟨rfl, -⟩ := Prod.mk.inj heq
      exact nofun
    · split at h
      · obtain ⟨t', hnumber, heq⟩ := Option.map_eq_some_iff.1 h
        obtain ⟨rfl, -⟩ := Prod.mk.inj heq
        exact isFlat_of_ofNumber? hnumber
      · obtain ⟨t', hname, heq⟩ := Option.map_eq_some_iff.1 h
        obtain ⟨rfl, -⟩ := Prod.mk.inj heq
        exact isFlat_of_ofName? hname

end Token

/-! ### Drafts -/

/-- The values that are in the container so far. -/
def Frame.values : Frame → List Json
  | .array items => items
  | .object members _ => members.map Prod.snd

/-- How many containers a value may have that has these around it. -/
def room (outer : List Frame) : Nat :=
  maxDepth - outer.length

/-- There is room for every value in its container. -/
def Fit : List Frame → Prop
  | [] => True
  | frame :: outer => (∀ j ∈ frame.values, j.depth ≤ room (frame :: outer)) ∧ Fit outer

namespace Draft

/-- The containers that are open, or have just been closed. -/
def frames : Draft → List Frame
  | .value outer => outer
  | .firstItem outer => .array [] :: outer
  | .afterItem items outer => .array items :: outer
  | .firstKey outer => .object [] none :: outer
  | .nextKey members outer => .object members none :: outer
  | .colon members key outer => .object members key :: outer
  | .afterMember members outer => .object members none :: outer
  | .done _ => []

/-- There is room for every value, and for the whole if it is there. -/
def Fits (draft : Draft) : Prop :=
  Fit draft.frames ∧ ∀ j, draft = .done j → j.depth ≤ maxDepth

variable {draft draft' : Draft} {outer : List Frame} {t : Token}

theorem fits_put {j : Json} (h : Fit outer) (hj : j.depth ≤ room outer) : (put j outer).Fits := by
  cases outer with
  | nil =>
      refine ⟨trivial, ?_⟩
      rintro _ ⟨⟩
      exact hj
  | cons frame outer =>
      cases frame with
      | array items => exact ⟨⟨List.forall_mem_cons.2 ⟨hj, h.1⟩, h.2⟩, nofun⟩
      | object members key => exact ⟨⟨List.forall_mem_cons.2 ⟨hj, h.1⟩, h.2⟩, nofun⟩

/-- A container fits around values that fit into it, or else it is unreadable. -/
theorem fits_close {container : Json} {frame : Frame} (h : Fit (frame :: outer))
    (hcontainer : container.depth ≤ room (frame :: outer) + 1) : (close container outer).Fits := by
  refine fits_put h.2 ?_
  by_cases hroom : outer.length < maxDepth
  · -- The values inside leave room for one container more.
    rw [if_pos hroom]
    simp only [room, List.length_cons] at hcontainer ⊢
    omega
  · rw [if_neg hroom]
    exact Nat.zero_le _

theorem fits_objectOf {members : List (Option String × Json)} {key : Option String}
    (h : Fit (.object members key :: outer)) : (close (objectOf members) outer).Fits := by
  refine fits_close h ?_
  unfold objectOf
  split
  next named hnamed =>
    refine Nat.succ_le_succ (depthMembers_le_iff.2 fun m hm => h.1 m.2 ?_)
    obtain ⟨n, hn, hread⟩ := exists_of_mem_mapM hnamed hm
    obtain ⟨_, -, rfl⟩ := Option.map_eq_some_iff.1 hread
    exact List.mem_map_of_mem (f := Prod.snd) (List.mem_reverse.1 hn)
  next => exact Nat.zero_le _

/-- A value begins with room for it. -/
theorem fits_begin (hflat : t.IsFlat) (h : Fit outer) (hbegin : begin outer t = some draft) :
    draft.Fits := by
  cases t with
  | scalar j =>
      obtain rfl := Option.some.inj hbegin
      exact fits_put h (by rw [hflat j rfl]; exact Nat.zero_le _)
  | text s =>
      obtain rfl := Option.some.inj hbegin
      exact fits_put h (by cases s <;> exact Nat.zero_le _)
  | leftBracket =>
      obtain rfl := Option.some.inj hbegin
      exact ⟨⟨nofun, h⟩, nofun⟩
  | leftBrace =>
      obtain rfl := Option.some.inj hbegin
      exact ⟨⟨nofun, h⟩, nofun⟩
  | rightBracket | rightBrace | colon | comma => contradiction

/-- One word keeps the room. -/
theorem Fits.step (hflat : t.IsFlat) (h : draft.Fits) (hstep : draft.step t = some draft') :
    draft'.Fits := by
  cases draft with
  | value outer => exact fits_begin hflat h.1 hstep
  | firstItem outer =>
      cases t with
      | rightBracket =>
          obtain rfl := Option.some.inj hstep
          exact fits_close h.1 (Nat.succ_le_succ (Nat.zero_le _))
      | _ => exact fits_begin hflat h.1 hstep
  | afterItem items outer =>
      cases t with
      | comma =>
          obtain rfl := Option.some.inj hstep
          exact ⟨h.1, nofun⟩
      | rightBracket =>
          obtain rfl := Option.some.inj hstep
          refine fits_close h.1 (Nat.succ_le_succ (depthItems_le_iff.2 fun j hj => ?_))
          exact h.1.1 j (List.mem_reverse.1 hj)
      | _ => contradiction
  | firstKey outer =>
      cases t with
      | rightBrace =>
          obtain rfl := Option.some.inj hstep
          exact fits_close h.1 (Nat.succ_le_succ (Nat.zero_le _))
      | text key =>
          obtain rfl := Option.some.inj hstep
          exact ⟨h.1, nofun⟩
      | _ => contradiction
  | nextKey members outer =>
      cases t with
      | text key =>
          obtain rfl := Option.some.inj hstep
          exact ⟨h.1, nofun⟩
      | _ => contradiction
  | colon members key outer =>
      cases t with
      | colon =>
          obtain rfl := Option.some.inj hstep
          exact ⟨h.1, nofun⟩
      | _ => contradiction
  | afterMember members outer =>
      cases t with
      | comma =>
          obtain rfl := Option.some.inj hstep
          exact ⟨h.1, nofun⟩
      | rightBrace =>
          obtain rfl := Option.some.inj hstep
          exact fits_objectOf h.1
      | _ => contradiction
  | done j => contradiction

/-- So does a whole text. -/
theorem Fits.run {cs : List Char} (h : draft.Fits) (hrun : draft.run cs = some draft') :
    draft'.Fits := by
  fun_induction Draft.run draft cs with
  | case1 draft =>
      obtain rfl := Option.some.inj hrun
      exact h
  | case2 draft c cs hblank ih => exact ih h hrun
  | case3 => contradiction
  | case4 => contradiction
  | case5 draft c cs hblank t rest hfirst next hstep ih =>
      exact ih (h.step (Token.isFlat_of_first? hfirst) hstep) hrun

end Draft

/-! ### Main statement -/

/-- No more containers sit inside each other than may be open at once. -/
theorem depth_le_of_parse? {text : String} {j : Json} (h : parse? text = some j) :
    j.depth ≤ maxDepth := by
  unfold parse? at h
  split at h
  next value hrun =>
    obtain rfl := Option.some.inj h
    have hstart : (Draft.value []).Fits := ⟨trivial, nofun⟩
    exact (hstart.run hrun).2 value rfl
  next => contradiction

end Json

end Progression

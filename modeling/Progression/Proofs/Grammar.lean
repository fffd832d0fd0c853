import Mathlib
import Progression.Proofs.Spelling
import Progression.Source

/-!
The grammar of rules. `Writes` says which gate a value writes, apart from how deep gates may nest,
and the reader is measured against it: what it accepts is written by the grammar, and what the
grammar writes is accepted unless it nests too deeply. Main statement: a table is loaded exactly
if each of its members is a rule, and otherwise the first member that is none is blamed.
-/

namespace Progression

namespace Json

mutual

/-- The value with repeated keys resolved at any depth: of the members of an object with one key
the last counts. -/
def resolved : Json → Json
  | .array items => .array (resolvedItems items)
  | .object members => .object (distinct (resolvedMembers members))
  | value => value

def resolvedItems : List Json → List Json
  | [] => []
  | j :: js => j.resolved :: resolvedItems js

def resolvedMembers : List (String × Json) → List (String × Json)
  | [] => []
  | (key, j) :: ms => (key, j.resolved) :: resolvedMembers ms

end

end Json

namespace Authoring

open Json

mutual

/-- The value writes the gate. How deep gates nest in it is another matter. -/
inductive Writes : Json → Gate → Prop
  | null : Writes .null .root
  | name (s : String) : Writes (.string s) ⟨.and, [.named s]⟩
  | list {items : List Json} {parents : List Parent} :
      WritesAll items parents → Writes (.array items) ⟨.and, parents⟩
  | kind {kind : Kind} {body : Json} {parents : List Parent} : kind ∈ Kind.labelled →
      WritesBody body parents → Writes (.object [(kind.label, body)]) ⟨kind, parents⟩
  | count {n : Nat} (resource : String) : n < UInt32.size →
      Writes (.object [("count", .array [.nat n, .string resource])])
        (.count (UInt32.ofNat n) resource)

/-- The value writes the parents behind the label of a kind. -/
inductive WritesBody : Json → List Parent → Prop
  | null : WritesBody .null []
  | name (s : String) : WritesBody (.string s) [.named s]
  | list {items : List Json} {parents : List Parent} :
      WritesAll items parents → WritesBody (.array items) parents
  | gate {members : List (String × Json)} {gate : Gate} :
      Writes (.object members) gate → WritesBody (.object members) [gate.inline]

/-- The items of a list write its parents: text is a name, and whatever else a gate in place. -/
inductive WritesAll : List Json → List Parent → Prop
  | nil : WritesAll [] []
  | name (s : String) {items : List Json} {parents : List Parent} :
      WritesAll items parents → WritesAll (.string s :: items) (.named s :: parents)
  | gate {j : Json} {gate : Gate} {items : List Json} {parents : List Parent} :
      (∀ s, j ≠ .string s) → Writes j gate → WritesAll items parents →
      WritesAll (j :: items) (gate.inline :: parents)

end

/-- The value is a rule, in which no gate has too many others around it. -/
def IsRule (j : Json) : Prop :=
  ∃ gate, Writes j.resolved gate ∧ gate.depth ≤ maxNesting

/-! ### Repeated keys -/

@[simp] theorem mem_map_fst_distinct {α : Type} (key : String) (members : List (String × α)) :
    key ∈ (distinct members).map Prod.fst ↔ key ∈ members.map Prod.fst := by
  induction members with
  | nil => rfl
  | cons m ms ih =>
      rw [distinct]
      split
      case isTrue hlater =>
          obtain ⟨m', hm', hsame⟩ := List.any_eq_true.1 hlater
          rw [ih, List.map_cons, List.mem_cons]
          refine ⟨Or.inr, ?_⟩
          rintro (rfl | hmem)
          · exact List.mem_map.2 ⟨m', hm', beq_iff_eq.1 hsame⟩
          · exact hmem
      case isFalse => rw [List.map_cons, List.map_cons, List.mem_cons, List.mem_cons, ih]

/-- A key that is repeated at once does not count. -/
@[simp]
theorem distinct_repeated {α : Type} (key : String) (a b : α) (members : List (String × α)) :
    distinct ((key, a) :: (key, b) :: members) = distinct ((key, b) :: members) := by
  rw [distinct, if_pos (by simp)]

/-- Members with different keys do not come down to one. -/
theorem distinct_ne_singleton {α : Type} {key key' : String} (h : key' ≠ key) (a b : α)
    (members : List (String × α)) (m : String × α) :
    distinct ((key, a) :: (key', b) :: members) ≠ [m] := by
  intro heq
  have hkeys : ∀ k, k = m.1 ↔ k ∈ (((key, a) :: (key', b) :: members).map Prod.fst) := by
    intro k
    rw [← mem_map_fst_distinct, heq, List.map_singleton, List.mem_singleton]
  have hkey : key = m.1 := (hkeys key).2 (by simp)
  have hkey' : key' = m.1 := (hkeys key').2 (by simp)
  exact h (hkey'.trans hkey.symm)

@[simp] theorem resolved_eq_string_iff {j : Json} {s : String} :
    j.resolved = .string s ↔ j = .string s := by
  cases j <;> simp [resolved]

theorem exists_eq_singleton_of_writes {members : List (String × Json)} {g : Gate}
    (h : Writes (.object members) g) : ∃ m, members = [m] := by
  cases h <;> exact ⟨_, rfl⟩

theorem threshold?_eq_some_iff {j : Json} {min : UInt32} :
    threshold? j = some min ↔ ∃ n, n < UInt32.size ∧ j = .nat n ∧ min = UInt32.ofNat n := by
  unfold threshold?
  split
  case h_1 n =>
    simp [Json.nat, eq_comm]
  case h_2 hne =>
    simp only [reduceCtorEq, false_iff]
    rintro ⟨n, -, rfl, -⟩
    exact hne n rfl

theorem countGate_eq_ok_iff {j : Json} {gate : Gate} :
    countGate j = .ok gate ↔ ∃ n resource, n < UInt32.size ∧
      j = .array [.nat n, .string resource] ∧ gate = .count (UInt32.ofNat n) resource := by
  unfold countGate
  split
  case h_1 threshold resource =>
    constructor
    · intro h
      split at h
      case h_1 min hmin =>
        obtain ⟨n, hn, rfl, rfl⟩ := threshold?_eq_some_iff.1 hmin
        exact ⟨n, resource, hn, rfl, (Except.ok.inj h).symm⟩
      case h_2 => contradiction
    · rintro ⟨n, r, hn, heq, rfl⟩
      simp only [Json.array.injEq, List.cons.injEq, Json.string.injEq, and_true] at heq
      obtain ⟨rfl, rfl⟩ := heq
      rw [threshold?_eq_some_iff.2 ⟨n, hn, rfl, rfl⟩]
  case h_2 hne =>
    simp only [reduceCtorEq, false_iff]
    rintro ⟨n, r, -, rfl, -⟩
    exact hne (.nat n) r rfl

@[simp] theorem threshold?_resolved (j : Json) : threshold? j.resolved = threshold? j := by
  cases j <;> rfl

/-- There is nothing to resolve in the body of a count gate that is well formed. -/
@[simp] theorem countGate_resolved (j : Json) : countGate j.resolved = countGate j := by
  cases j with
  | array items =>
      match items with
      | [] | [_] => rfl
      | _ :: _ :: _ :: _ => simp [resolved, resolvedItems, countGate]
      | [threshold, .string resource] =>
          show countGate (.array [threshold.resolved, .string resource]) = _
          rw [countGate, countGate, threshold?_resolved]
      | [_, .null] | [_, .bool _] | [_, .number _] | [_, .array _] | [_, .object _]
      | [_, .unreadable] => rfl
  | null | bool | number | string | object | unreadable => rfl

/-! ### What the grammar writes is read -/

@[simp] theorem depthAll_named_cons (s : String) (ps : List Parent) :
    Parent.depthAll (.named s :: ps) = Parent.depthAll ps := Nat.zero_max _

@[simp] theorem depthAll_inline_cons (g : Gate) (ps : List Parent) :
    Parent.depthAll (g.inline :: ps) = max (g.depth + 1) (Parent.depthAll ps) := rfl

theorem depthAll_inline (g : Gate) : Parent.depthAll [g.inline] = g.depth + 1 := Nat.max_zero _

/-- What is read inside `level` gates of something that nests `depth` deep. -/
def ifRoom {α : Type} (level depth : Nat) (a : α) : Except Fault α :=
  if level + depth ≤ maxNesting then .ok a else .error .tooDeep

theorem ifRoom_zero {α : Type} {level : Nat} (h : level ≤ maxNesting) (a : α) :
    ifRoom level 0 a = .ok a := if_pos h

theorem ifRoom_of_lt {α : Type} {level : Nat} (h : maxNesting < level) (depth : Nat) (a : α) :
    ifRoom level depth a = .error .tooDeep := if_neg (by omega)

theorem ifRoom_map {α β : Type} (level depth : Nat) (a : α) (f : α → β) :
    (do return f (← ifRoom level depth a)) = ifRoom level depth (f a) := by
  unfold ifRoom
  split <;> rfl

/-- A gate in place takes one more level than what is in it. -/
theorem ifRoom_succ {α : Type} (level depth : Nat) (a : α) :
    ifRoom (level + 1) depth a = ifRoom level (depth + 1) a := by
  unfold ifRoom
  rw [Nat.add_right_comm level 1 depth, Nat.add_assoc level depth 1]

/-- Two things have room if the one that nests deeper has. -/
theorem ifRoom_pair {α β γ : Type} (level d d' : Nat) (a : α) (b : β) (f : α → β → γ) :
    (do
      let x ← ifRoom level d a
      return f x (← ifRoom level d' b)) = ifRoom level (max d d') (f a b) := by
  unfold ifRoom
  by_cases ha : level + d ≤ maxNesting
  · by_cases hb : level + d' ≤ maxNesting
    · rw [if_pos ha, if_pos hb, if_pos (by omega)]
      rfl
    · rw [if_pos ha, if_neg hb, if_neg (by omega)]
      rfl
  · have hmax : ¬ level + max d d' ≤ maxNesting := by omega
    rw [if_neg ha, if_neg hmax]
    rfl

theorem gate_of_lt {level : Nat} (h : maxNesting < level) (j : Json) :
    gate level j = .error .tooDeep := by
  cases j <;> rw [gate, if_pos h]
  all_goals simp

-- The readers call each other on the parts of a value, so the statements are proved together. A
-- reader sees repeated keys, which the grammar does not.
mutual

theorem gate_of_writes {level : Nat} (hlevel : level ≤ maxNesting) :
    (j : Json) → {g : Gate} → Writes j.resolved g → gate level j = ifRoom level g.depth g
  | .null, _, .null => by
      rw [gate, if_neg (Nat.not_lt.2 hlevel)]
      exact (ifRoom_zero hlevel _).symm
  | .string s, _, .name _ => by
      rw [gate, if_neg (Nat.not_lt.2 hlevel)]
      exact (ifRoom_zero hlevel _).symm
  | .array items, _, .list h => by
      rw [gate, if_neg (Nat.not_lt.2 hlevel), parents_of_writes hlevel items h]
      exact ifRoom_map level _ _ _
  | .object members, _, h => by
      rw [gate, if_neg (Nat.not_lt.2 hlevel)]
      exact kindGate_of_writes hlevel members h

theorem kindGate_of_writes {level : Nat} (hlevel : level ≤ maxNesting) :
    (members : List (String × Json)) → {g : Gate} →
      Writes (.object (distinct (resolvedMembers members))) g →
      kindGate level members = ifRoom level g.depth g
  | [], _, h => by nomatch h
  | [(key, body)], g, h => by
      replace h : Writes (.object [(key, body.resolved)]) g := h
      generalize hbody : body.resolved = resolved at h
      cases h with
      | @kind kind _ parents hkind h =>
          rw [← hbody] at h
          have hcount : kind.isCount = false := Kind.mem_labelled_iff.1 hkind
          have hkey : kind.label ≠ "count" := by
            cases kind <;> simp_all [Kind.label, Kind.isCount]
          rw [kindGate, if_neg hkey, Kind.ofLabel?_label hcount]
          show (do return (⟨kind, ← bodyParents level kind.label body⟩ : Gate)) = _
          rw [bodyParents_of_writes hlevel kind.label body h]
          exact ifRoom_map level _ _ _
      | count resource hn =>
          rw [kindGate, if_pos rfl, ← countGate_resolved, hbody]
          rw [countGate_eq_ok_iff.2 ⟨_, resource, hn, rfl, rfl⟩]
          exact (ifRoom_zero hlevel _).symm
  | (key, body) :: (key', body') :: ms, g, h => by
      by_cases hkey : key' = key
      · subst hkey
        rw [kindGate, if_pos rfl]
        apply kindGate_of_writes hlevel ((key', body') :: ms)
        rw [resolvedMembers, resolvedMembers, distinct_repeated] at h
        exact h
      · -- the grammar knows no object with two keys
        obtain ⟨m, hm⟩ := exists_eq_singleton_of_writes h
        exact absurd hm (distinct_ne_singleton hkey _ _ _ m)

theorem bodyParents_of_writes {level : Nat} (hlevel : level ≤ maxNesting) (key : String) :
    (j : Json) → {ps : List Parent} → WritesBody j.resolved ps →
    bodyParents level key j = ifRoom level (Parent.depthAll ps) ps
  | .null, _, .null => (ifRoom_zero hlevel _).symm
  | .string s, _, .name _ => (ifRoom_zero hlevel _).symm
  | .array items, ps, .list h => by
      rw [bodyParents]
      exact parents_of_writes hlevel items h
  | .object members, _, @WritesBody.gate _ g h => by
      rw [bodyParents, depthAll_inline]
      by_cases hdeep : maxNesting < level + 1
      · rw [if_pos hdeep, ← ifRoom_succ, ifRoom_of_lt hdeep]
      · rw [if_neg hdeep, kindGate_of_writes (Nat.le_of_not_lt hdeep) members h, ← ifRoom_succ]
        exact ifRoom_map (level + 1) _ _ _

theorem parents_of_writes {level : Nat} (hlevel : level ≤ maxNesting) :
    (items : List Json) → {ps : List Parent} → WritesAll (resolvedItems items) ps →
    parents level items = ifRoom level (Parent.depthAll ps) ps
  | [], _, .nil => (ifRoom_zero hlevel _).symm
  | j :: js, ps, h => by
      rw [resolvedItems] at h
      generalize hj : j.resolved = resolved at h
      cases h with
      | @name s _ qs h =>
          obtain rfl := resolved_eq_string_iff.1 hj
          rw [parents, parents_of_writes hlevel js h, depthAll_named_cons]
          exact ifRoom_map level _ _ _
      | @gate _ g _ qs hne h hrest =>
          rw [← hj] at h
          have hstring : ∀ s, j = .string s → False := fun s hs =>
            hne s (hj ▸ resolved_eq_string_iff.2 hs)
          have hgate : gate (level + 1) j = ifRoom (level + 1) g.depth g := by
            by_cases hdeep : maxNesting < level + 1
            · rw [gate_of_lt hdeep, ifRoom_of_lt hdeep]
            · exact gate_of_writes (Nat.le_of_not_lt hdeep) j h
          rw [parents, hgate, parents_of_writes hlevel js hrest, ifRoom_succ, depthAll_inline_cons]
          · exact ifRoom_pair level _ _ _ _ fun g ps => Gate.inline g :: ps
          · exact hstring

end

/-! ### What is read is written by the grammar -/

theorem map_eq_ok {α β : Type} {x : Except Fault α} {f : α → β} {b : β}
    (h : (do return f (← x)) = .ok b) : ∃ a, x = .ok a ∧ f a = b := by
  cases x with
  | error e => contradiction
  | ok a => exact ⟨a, rfl, Except.ok.inj h⟩

-- Again the four go together, and each keeps what it has read within the levels that are left.
mutual

theorem writes_of_gate {level : Nat} : (j : Json) → {g : Gate} → gate level j = .ok g →
    Writes j.resolved g ∧ level + g.depth ≤ maxNesting
  | j, g, h => by
      have hshallow : ¬ maxNesting < level := by
        intro hdeep
        rw [gate_of_lt hdeep] at h
        contradiction
      have hlevel : level ≤ maxNesting := Nat.le_of_not_lt hshallow
      cases j with
      | null =>
          rw [gate, if_neg hshallow] at h
          obtain rfl := Except.ok.inj h
          exact ⟨.null, hlevel⟩
      | string s =>
          rw [gate, if_neg hshallow] at h
          obtain rfl := Except.ok.inj h
          exact ⟨.name s, hlevel⟩
      | array items =>
          rw [gate, if_neg hshallow] at h
          obtain ⟨ps, hps, rfl⟩ := map_eq_ok h
          obtain ⟨hwrites, hroom⟩ := writesAll_of_parents hlevel items hps
          exact ⟨.list hwrites, hroom⟩
      | object members =>
          rw [gate, if_neg hshallow] at h
          exact writes_of_kindGate hlevel members h
      | bool | number | unreadable => simp [gate, hshallow] at h

theorem writes_of_kindGate {level : Nat} (hlevel : level ≤ maxNesting) :
    (members : List (String × Json)) → {g : Gate} → kindGate level members = .ok g →
    Writes (.object (distinct (resolvedMembers members))) g ∧ level + g.depth ≤ maxNesting
  | [], _, h => by
      rw [kindGate] at h
      contradiction
  | [(key, body)], g, h => by
      show Writes (.object [(key, body.resolved)]) g ∧ _
      rw [kindGate] at h
      split at h
      case isTrue hkey =>
          subst hkey
          rw [← countGate_resolved] at h
          obtain ⟨n, resource, hn, hbody, rfl⟩ := countGate_eq_ok_iff.1 h
          rw [hbody]
          exact ⟨.count resource hn, hlevel⟩
      case isFalse =>
          split at h
          case h_1 => contradiction
          case h_2 kind hkind =>
              obtain ⟨ps, hps, rfl⟩ := map_eq_ok h
              obtain ⟨hmem, rfl⟩ := Kind.ofLabel?_eq_some_iff.1 hkind
              obtain ⟨hwrites, hroom⟩ := writesBody_of_bodyParents hlevel kind.label body hps
              exact ⟨.kind hmem hwrites, hroom⟩
  | (key, body) :: (key', body') :: ms, g, h => by
      rw [kindGate] at h
      split at h
      case isTrue hkey =>
          obtain rfl : key' = key := hkey
          rw [resolvedMembers, resolvedMembers, distinct_repeated]
          exact writes_of_kindGate hlevel ((key', body') :: ms) h
      case isFalse => contradiction

theorem writesBody_of_bodyParents {level : Nat} (hlevel : level ≤ maxNesting) (key : String) :
    (j : Json) → {ps : List Parent} → bodyParents level key j = .ok ps →
    WritesBody j.resolved ps ∧ level + Parent.depthAll ps ≤ maxNesting
  | .null, _, h => by
      rw [bodyParents] at h
      obtain rfl := Except.ok.inj h
      exact ⟨.null, hlevel⟩
  | .string s, _, h => by
      rw [bodyParents] at h
      obtain rfl := Except.ok.inj h
      exact ⟨.name s, hlevel⟩
  | .array items, ps, h => by
      rw [bodyParents] at h
      obtain ⟨hwrites, hroom⟩ := writesAll_of_parents hlevel items h
      exact ⟨.list hwrites, hroom⟩
  | .object members, _, h => by
      rw [bodyParents] at h
      split at h
      case isTrue => contradiction
      case isFalse hdeep =>
          obtain ⟨g, hg, rfl⟩ := map_eq_ok h
          obtain ⟨hwrites, hroom⟩ := writes_of_kindGate (Nat.le_of_not_lt hdeep) members hg
          refine ⟨.gate hwrites, ?_⟩
          rw [depthAll_inline]
          omega
  | .bool _, _, h | .number _, _, h | .unreadable, _, h => by simp [bodyParents] at h

theorem writesAll_of_parents {level : Nat} (hlevel : level ≤ maxNesting) :
    (items : List Json) → {ps : List Parent} → parents level items = .ok ps →
    WritesAll (resolvedItems items) ps ∧ level + Parent.depthAll ps ≤ maxNesting
  | [], _, h => by
      rw [parents] at h
      obtain rfl := Except.ok.inj h
      exact ⟨.nil, hlevel⟩
  | j :: js, ps, h => by
      rw [resolvedItems]
      by_cases hstring : ∃ s, j = .string s
      · obtain ⟨s, rfl⟩ := hstring
        rw [parents] at h
        obtain ⟨qs, hqs, rfl⟩ := map_eq_ok h
        obtain ⟨hwrites, hroom⟩ := writesAll_of_parents hlevel js hqs
        exact ⟨.name s hwrites, depthAll_named_cons s qs ▸ hroom⟩
      · have hne : ∀ s, j = .string s → False := fun s hs => hstring ⟨s, hs⟩
        rw [parents] at h
        · cases hg : gate (level + 1) j with
          | error e =>
              rw [hg] at h
              contradiction
          | ok g =>
              rw [hg] at h
              obtain ⟨qs, hqs, rfl⟩ := map_eq_ok (f := fun qs => g.inline :: qs) h
              obtain ⟨hwrites, hroom⟩ := writes_of_gate j hg
              obtain ⟨hwritesAll, hroomAll⟩ := writesAll_of_parents hlevel js hqs
              refine
                ⟨.gate (fun s hs => hne s (resolved_eq_string_iff.1 hs)) hwrites hwritesAll, ?_⟩
              rw [depthAll_inline_cons]
              omega
        · exact hne

end

theorem ruleGate_of_writes {j : Json} {g : Gate} (h : Writes j.resolved g) :
    ruleGate j = ifRoom 0 g.depth g := gate_of_writes (Nat.zero_le _) j h

theorem ruleGate_eq_ok_iff {j : Json} {g : Gate} :
    ruleGate j = .ok g ↔ Writes j.resolved g ∧ g.depth ≤ maxNesting := by
  constructor
  · intro h
    obtain ⟨hwrites, hroom⟩ := writes_of_gate j h
    exact ⟨hwrites, Nat.zero_add g.depth ▸ hroom⟩
  · rintro ⟨hwrites, hroom⟩
    rw [ruleGate_of_writes hwrites]
    exact if_pos (by omega)

/-- Of what the grammar writes, too deep a nest is the only fault. -/
theorem fault_eq_tooDeep {j : Json} {g : Gate} {fault : Fault} (hwrites : Writes j.resolved g)
    (h : ruleGate j = .error fault) : fault = .tooDeep := by
  rw [ruleGate_of_writes hwrites, ifRoom] at h
  split at h
  · contradiction
  · exact (Except.error.inj h).symm

end Authoring

namespace Table

open Authoring

variable {members : List (String × Json)}

/-! ### Members -/

/-- The entries are the rules that the members write, in their order. -/
def Transcribes (members : List (String × Json)) (entries : List (String × Gate)) : Prop :=
  List.Forall₂ (fun m entry =>
    entry.1 = m.1 ∧ Writes m.2.resolved entry.2 ∧ entry.2.depth ≤ maxNesting) members entries

/-- The error names the first member that is no rule, and says that it nests too deeply if the
grammar writes it. -/
def Blames (members : List (String × Json)) (e : SourceError) : Prop :=
  ∃ before m after fault, members = before ++ m :: after ∧ (∀ m' ∈ before, IsRule m'.2) ∧
    ¬ IsRule m.2 ∧ ((∃ gate, Writes m.2.resolved gate) → fault = .tooDeep) ∧
    e = .badRule m.1 fault

theorem Transcribes.isRule {entries : List (String × Gate)} (h : Transcribes members entries) :
    ∀ m ∈ members, IsRule m.2 := by
  induction h with
  | nil => exact List.forall_mem_nil _
  | cons hm _ ih => exact List.forall_mem_cons.2 ⟨⟨_, hm.2⟩, ih⟩

theorem Blames.exists_not_isRule {e : SourceError} (h : Blames members e) :
    ∃ m ∈ members, ¬ IsRule m.2 := by
  obtain ⟨before, m, after, fault, rfl, -, hm, -⟩ := h
  exact ⟨m, by simp, hm⟩

/-- Reading goes on as long as members are rules. -/
theorem entries?_spec (members : List (String × Json)) :
    (∃ entries, entries? members = .ok entries ∧ Transcribes members entries) ∨
      ∃ e, entries? members = .error e ∧ Blames members e := by
  induction members with
  | nil => exact .inl ⟨[], rfl, .nil⟩
  | cons m ms ih =>
      obtain ⟨name, j⟩ := m
      rw [entries?]
      cases hj : ruleGate j with
      | error fault =>
          refine .inr ⟨.badRule name fault, rfl, [], (name, j), ms, fault, rfl,
            List.forall_mem_nil _, ?_, ?_, rfl⟩
          · rintro ⟨gate, hgate⟩
            rw [ruleGate_eq_ok_iff.2 hgate] at hj
            contradiction
          · rintro ⟨gate, hwrites⟩
            exact fault_eq_tooDeep hwrites hj
      | ok gate =>
          have hgate := ruleGate_eq_ok_iff.1 hj
          rcases ih with ⟨entries, hentries, htranscribes⟩ | ⟨e, he, hblames⟩
          · rw [hentries]
            exact .inl ⟨(name, gate) :: entries, rfl, .cons ⟨rfl, hgate⟩ htranscribes⟩
          · rw [he]
            obtain ⟨before, m, after, fault, rfl, hbefore, hblamed⟩ := hblames
            exact .inr ⟨e, rfl, (name, j) :: before, m, after, fault, rfl,
              List.forall_mem_cons.2 ⟨⟨gate, hgate⟩, hbefore⟩, hblamed⟩

theorem load_json {text : String} (hsize : text.utf8ByteSize ≤ sizeLimit)
    (hparse : Json.parse? text = some (.object members))
    (hreadable : Json.areReadable members = true) (name : String) :
    load name .json text = (entries? members).map fun entries => { name, entries } := by
  have hmembers : TableFormat.json.members? text = some members := by
    rw [TableFormat.members?, hparse]
    exact if_pos hreadable
  rw [load, if_neg (Nat.not_lt.2 hsize), hmembers]

/-- From the text of an object a table is loaded exactly if every member is a rule. Then the rules
are its entries, in the order of the members and with repeated names; otherwise the first member
that is no rule is blamed. A threshold, like any natural number, is the plain numeral. -/
theorem load_json_spec {text : String} {members : List (String × Json)}
    (hsize : text.utf8ByteSize ≤ sizeLimit)
    (hparse : Json.parse? text = some (.object members))
    (hreadable : Json.areReadable members = true) (name : String) :
    ((∃ table, load name .json text = .ok table) ↔ ∀ m ∈ members, IsRule m.2) ∧
    (∀ table, load name .json text = .ok table →
      table.name = name ∧ table.placeable = false ∧ Transcribes members table.entries) ∧
    (∀ e, load name .json text = .error e → Blames members e) ∧
    ∀ (lexeme : List Char) (n : Nat),
      Json.Number.read lexeme = .number (.natural n) ↔
        lexeme = Nat.toDigits 10 n ∧ n < UInt64.size := by
  rw [load_json hsize hparse hreadable name]
  rcases entries?_spec members with ⟨entries, hread, hspec⟩ | ⟨e, hread, hspec⟩
  · rw [hread]
    refine ⟨⟨fun _ => hspec.isRule, fun _ => ⟨_, rfl⟩⟩, ?_, ?_,
      fun _ _ => Json.Number.read_eq_natural_iff⟩
    · intro table h
      obtain rfl := Except.ok.inj h
      exact ⟨rfl, rfl, hspec⟩
    · intro e h
      contradiction
  · rw [hread]
    refine ⟨⟨fun ⟨_, h⟩ => (nomatch h), fun hrules => ?_⟩, ?_, ?_,
      fun _ _ => Json.Number.read_eq_natural_iff⟩
    · obtain ⟨m, hm, hbad⟩ := hspec.exists_not_isRule
      exact absurd (hrules m hm) hbad
    · intro table h
      contradiction
    · intro e' h
      obtain rfl := Except.error.inj h
      exact hspec

/-- A rule whose label is repeated, and another rule of its name. -/
def doorText : String :=
  "\x7b\"door\": \x7b\"or\": 7, \"or\": [\"key\", \x7b\"count\": [2, \"gem\"]\x7d]\x7d," ++
    " \"door\": null\x7d"

def doorMembers : List (String × Json) :=
  [("door", .object [("or", .nat 7),
      ("or", .array [.string "key", .object [("count", .array [.nat 2, .string "gem"])]])]),
    ("door", .null)]

def doorTable : Table :=
  { name := "d"
    entries := [("door", ⟨.or, [.named "key", (Gate.count 2 "gem").inline]⟩), ("door", .root)] }

theorem load_json_spec_door :
    load "d" .json doorText = .ok doorTable ∧ Transcribes doorMembers doorTable.entries ∧
      ∀ m ∈ doorMembers, IsRule m.2 := by
  have hload : load "d" .json doorText = .ok doorTable := by cbv
  have hparse : Json.parse? doorText = some (.object doorMembers) := by cbv
  obtain ⟨haccepts, hentries, -⟩ := load_json_spec (by decide) hparse (by cbv) "d"
  exact ⟨hload, (hentries _ hload).2.2, haccepts.1 ⟨_, hload⟩⟩

end Table

end Progression

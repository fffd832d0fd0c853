import Progression.Interchange.Gate
import Progression.Proofs.Decoding
import Progression.Proofs.Records

/-!
Gates exchanged as text. A gate is read from many forms and written in one, which nests no deeper
than any other. Main statement: a gate comes back from its text if and only if its containers do not
nest too deeply; and a gate that was read, from any text at all, always does.
-/

namespace Progression

/-! ### Forms -/

/-- A kind is a label, by itself or as a choice without data; the threshold of a count gate stands
in a record behind the label. -/
inductive Kind.Form : Json → Kind → Prop
  | label {kind : Kind} : kind.isCount = false → Form (.string kind.label) kind
  | choice {kind : Kind} : kind.isCount = false → Form (.object [(kind.label, .null)]) kind
  | count {min : UInt32} {body : Json} : body.IsRecord ["min"] [.nat min.toNat] →
      Form (.object [("count", body)]) (.count min)

mutual

/-- A parent is a choice between a name and a gate. -/
inductive Parent.Form : Json → Parent → Prop
  | named (name : String) : Parent.Form (.object [("named", .string name)]) (.named name)
  | inline {body : Json} {kind : Kind} {parents : List Parent} : Gate.Form body ⟨kind, parents⟩ →
      Parent.Form (.object [("inline", body)]) (.inline kind parents)

inductive Parent.Forms : List Json → List Parent → Prop
  | nil : Parent.Forms [] []
  | cons {j : Json} {js : List Json} {p : Parent} {ps : List Parent} : Parent.Form j p →
      Parent.Forms js ps → Parent.Forms (j :: js) (p :: ps)

/-- A gate is a record of its kind and its parents. -/
inductive Gate.Form : Json → Gate → Prop
  | record {j kindForm : Json} {items : List Json} {gate : Gate} :
      j.IsRecord ["kind", "parents"] [kindForm, .array items] → Kind.Form kindForm gate.kind →
      Parent.Forms items gate.parents → Gate.Form j gate

end

namespace Kind

theorem threshold?_eq_some_iff {body : Json} {kind : Kind} : threshold? body = some kind ↔
    ∃ min : UInt32, kind = .count min ∧ body.IsRecord ["min"] [.nat min.toNat] := by
  constructor
  · intro h
    unfold threshold? at h
    split at h
    next min hfields =>
      obtain ⟨n, hmin, rfl⟩ := Option.map_eq_some_iff.1 h
      obtain ⟨rfl, hn⟩ := Json.natural?_eq_some_iff.1 hmin
      refine ⟨_, rfl, ?_⟩
      rw [UInt32.toNat_ofNat_of_lt' hn]
      exact Json.fields?_eq_some_iff.1 hfields
    next => contradiction
  · rintro ⟨min, rfl, hbody⟩
    have hfields : Json.fields? .json false ["min"] body = some [some (.nat min.toNat)] :=
      Json.fields?_eq_some_iff.2 hbody
    simp only [threshold?, hfields, Json.natural?_nat min.toNat_lt_size, Option.map_some,
      UInt32.ofNat_toNat]

theorem ofJson?_eq_some_iff {j : Json} {kind : Kind} : ofJson? j = some kind ↔ Form j kind := by
  constructor
  · intro h
    unfold ofJson? at h
    split at h
    next body =>
      obtain ⟨min, rfl, hbody⟩ := threshold?_eq_some_iff.1 h
      exact .count hbody
    next =>
      obtain ⟨label, hchoice, hlabel⟩ := Option.bind_eq_some_iff.1 h
      obtain ⟨hmem, rfl⟩ := ofLabel?_eq_some_iff.1 hlabel
      have hcount := mem_labelled_iff.1 hmem
      rcases Json.choice?_eq_some_iff.1 hchoice with rfl | rfl
      · exact .label hcount
      · exact .choice hcount
  · intro h
    cases h with
    | label hcount => exact ofLabel?_label hcount
    | choice hcount => cases kind <;> first | rfl | contradiction
    | @count min body hbody => exact threshold?_eq_some_iff.2 ⟨min, rfl, hbody⟩

theorem form_toJson (kind : Kind) : Form kind.toJson kind :=
  ofJson?_eq_some_iff.1 kind.ofJson?_toJson

theorem toJson_of_isCount_eq_false {kind : Kind} (h : kind.isCount = false) :
    kind.toJson = .string kind.label := by
  cases kind with
  | count min => contradiction
  | _ => rfl

/-- The form that is written nests no deeper than any other. -/
theorem Form.depth_le {j : Json} {kind : Kind} (h : Form j kind) : kind.toJson.depth ≤ j.depth := by
  cases h with
  | label hcount =>
      rw [toJson_of_isCount_eq_false hcount]
  | choice hcount =>
      rw [toJson_of_isCount_eq_false hcount]
      exact Nat.zero_le _
  | @count min body hbody =>
      have hmin : 0 < body.depth := hbody.depth_lt (.nat min.toNat) (List.mem_singleton_self _)
      simp only [toJson, Json.depth, Json.depthMembers, Json.nat]
      omega

end Kind

namespace Parent

/-! ### Readers of gates -/

/-- What a field is read as once all members have been gone through: what was read before if no
member gives the field, or else what its only member is read as. -/
def Gives {α : Type} (name : String) (read : Json → Option α) (seen : Option α)
    (members : List (String × Json)) (a : α) : Prop :=
  match seen with
  | some b => b = a ∧ members.filter (·.1 == name) = []
  | none => ∃ j, members.filter (·.1 == name) = [(name, j)] ∧ read j = some a

namespace Gives

variable {α : Type} {name other : String} {read : Json → Option α} {seen : Option α} {j : Json}
  {members : List (String × Json)} {a : α}

theorem cons_of_ne (h : other ≠ name) :
    Gives name read seen ((other, j) :: members) a ↔ Gives name read seen members a := by
  have hfilter : ((other, j) :: members).filter (·.1 == name) = members.filter (·.1 == name) :=
    List.filter_cons_of_neg (by simpa using h)
  unfold Gives
  rw [hfilter]

/-- A field that was read before may not be given again. -/
theorem cons_self : Gives name read seen ((name, j) :: members) a ↔
    seen = none ∧ ∃ b, read j = some b ∧ Gives name read (some b) members a := by
  cases seen with
  | some b => simp [Gives]
  | none =>
      simp only [Gives, List.filter_cons, beq_self_eq_true, if_true, true_and]
      constructor
      · rintro ⟨j', hfilter, hread⟩
        obtain ⟨hj, hnil⟩ := List.cons.inj hfilter
        obtain ⟨-, rfl⟩ := Prod.mk.inj hj
        exact ⟨a, hread, rfl, hnil⟩
      · rintro ⟨b, hread, rfl, hfilter⟩
        exact ⟨j, by rw [hfilter], hread⟩

end Gives

section Members

variable {gate : Gate} {kind : Option Kind} {parents : Option (List Parent)} {j : Json}
  {members : List (String × Json)}

theorem gateMembers?_kind : gateMembers? kind parents (("kind", j) :: members) = some gate ↔
    kind = none ∧ ∃ k, Kind.ofJson? j = some k ∧
      gateMembers? (some k) parents members = some gate := by
  rw [gateMembers?, if_pos rfl]
  cases kind with
  | some k => simp
  | none => cases Kind.ofJson? j <;> simp

theorem gateMembers?_parents : gateMembers? kind parents (("parents", j) :: members) = some gate ↔
    parents = none ∧ ∃ ps, list? j = some ps ∧
      gateMembers? kind (some ps) members = some gate := by
  rw [gateMembers?, if_neg (by decide), if_pos rfl]
  cases parents with
  | some ps => simp
  | none => cases list? j <;> simp

theorem gateMembers?_of_ne {name : String} (hkind : name ≠ "kind") (hparents : name ≠ "parents") :
    gateMembers? kind parents ((name, j) :: members) = gateMembers? kind parents members := by
  rw [gateMembers?, if_neg hkind, if_neg hparents]

theorem gateMembers?_eq_some_iff : gateMembers? kind parents members = some gate ↔
    Gives "kind" Kind.ofJson? kind members gate.kind ∧
      Gives "parents" list? parents members gate.parents := by
  induction members generalizing kind parents with
  | nil =>
      obtain ⟨k, ps⟩ := gate
      cases kind <;> cases parents <;> simp [gateMembers?, Gives]
  | cons m members ih =>
      obtain ⟨name, j⟩ := m
      by_cases hkind : name = "kind"
      · subst hkind
        rw [gateMembers?_kind, Gives.cons_self, Gives.cons_of_ne (by decide)]
        simp only [ih, ← and_assoc, exists_and_right]
      · by_cases hparents : name = "parents"
        · subst hparents
          rw [gateMembers?_parents, Gives.cons_self, Gives.cons_of_ne (by decide)]
          simp only [ih, and_left_comm (b := Gives "kind" _ _ _ _), exists_and_left]
        · rw [gateMembers?_of_ne hkind hparents, ih, Gives.cons_of_ne hkind,
            Gives.cons_of_ne hparents]

end Members

theorem gate?_eq_some_iff {j : Json} {gate : Gate} : gate? j = some gate ↔
    ∃ kindForm parentsForm, j.IsRecord ["kind", "parents"] [kindForm, parentsForm] ∧
      Kind.ofJson? kindForm = some gate.kind ∧ list? parentsForm = some gate.parents := by
  cases j with
  | object members =>
      rw [gate?, gateMembers?_eq_some_iff]
      constructor
      · rintro ⟨⟨kindForm, hkindField, hkind⟩, parentsForm, hparentsField, hparents⟩
        exact ⟨kindForm, parentsForm, .object (.cons hkindField (.cons hparentsField .nil)), hkind,
          hparents⟩
      · rintro ⟨kindForm, parentsForm, hrecord, hkind, hparents⟩
        match hrecord with
        | .object (.cons hkindField (.cons hparentsField .nil)) =>
          exact ⟨⟨kindForm, hkindField, hkind⟩, parentsForm, hparentsField, hparents⟩
  | array items =>
      constructor
      · intro h
        match items with
        | [kindForm, parentsForm] =>
          obtain ⟨kind, hkind, h⟩ := Option.bind_eq_some_iff.1 h
          obtain ⟨parents, hparents, h⟩ := Option.bind_eq_some_iff.1 h
          obtain rfl := Option.some.inj h
          exact ⟨kindForm, parentsForm, .array rfl, hkind, hparents⟩
        | [] | [_] | _ :: _ :: _ :: _ => contradiction
      · rintro ⟨kindForm, parentsForm, hrecord, hkind, hparents⟩
        cases hrecord with
        | array _ =>
            rw [gate?, hkind, hparents]
            rfl
  | _ => exact iff_of_false nofun nofun

theorem list?_eq_some_iff {j : Json} {ps : List Parent} :
    list? j = some ps ↔ ∃ items, j = .array items ∧ all? items = some ps := by
  cases j with
  | array items => simp [list?]
  | _ => simp [list?]

theorem gate?_eq_some_iff_form {j : Json} {kind : Kind} {parents : List Parent}
    (hall : ∀ items, all? items = some parents ↔ Forms items parents) :
    gate? j = some ⟨kind, parents⟩ ↔ Gate.Form j ⟨kind, parents⟩ := by
  rw [gate?_eq_some_iff]
  constructor
  · rintro ⟨kindForm, parentsForm, hrecord, hkind, hparents⟩
    obtain ⟨items, rfl, hitems⟩ := list?_eq_some_iff.1 hparents
    exact .record hrecord (Kind.ofJson?_eq_some_iff.1 hkind) ((hall items).1 hitems)
  · rintro ⟨hrecord, hkind, hparents⟩
    exact ⟨_, _, hrecord, Kind.ofJson?_eq_some_iff.2 hkind,
      list?_eq_some_iff.2 ⟨_, rfl, (hall _).2 hparents⟩⟩

theorem exists_of_ofJson? {j : Json} {p : Parent} (h : ofJson? j = some p) :
    (∃ name, j = .object [("named", .string name)] ∧ p = .named name) ∨
      ∃ body gate, j = .object [("inline", body)] ∧ gate? body = some gate ∧ p = gate.inline := by
  unfold ofJson? at h
  split at h
  next key body =>
    split at h
    next hkey =>
      obtain ⟨name, hname, rfl⟩ := Option.map_eq_some_iff.1 h
      refine .inl ⟨name, ?_, rfl⟩
      rw [hkey, Json.text?_eq_some_iff.1 hname]
    next =>
      split at h
      next hkey =>
        obtain ⟨gate, hgate, rfl⟩ := Option.map_eq_some_iff.1 h
        exact .inr ⟨body, gate, by rw [hkey], hgate, rfl⟩
      next => contradiction
  next => contradiction

theorem ofJson?_inline (body : Json) :
    ofJson? (.object [("inline", body)]) = (gate? body).map Gate.inline := by
  rw [ofJson?, if_neg (by decide), if_pos rfl]

theorem all?_cons_eq_some_iff {j : Json} {js : List Json} {ps : List Parent} :
    all? (j :: js) = some ps ↔ ∃ p qs, ps = p :: qs ∧ ofJson? j = some p ∧ all? js = some qs := by
  rw [all?]
  constructor
  · intro h
    obtain ⟨p, hp, h⟩ := Option.bind_eq_some_iff.1 h
    obtain ⟨qs, hqs, h⟩ := Option.bind_eq_some_iff.1 h
    exact ⟨p, qs, (Option.some.inj h).symm, hp, hqs⟩
  · rintro ⟨p, qs, rfl, hp, hqs⟩
    rw [hp, hqs]
    rfl

-- The recursion follows the parent and not its form, which may have more in it than is read.
mutual

/-- Parents are read of their forms, and of nothing else. -/
theorem ofJson?_eq_some_iff {j : Json} : (p : Parent) → (ofJson? j = some p ↔ Form j p)
  | .named name => by
      constructor
      · intro h
        rcases exists_of_ofJson? h with ⟨_, rfl, ⟨⟩⟩ | ⟨_, _, _, _, ⟨⟩⟩
        exact .named name
      · rintro ⟨⟩
        rfl
  | .inline kind parents => by
      have hgate : ∀ body, gate? body = some ⟨kind, parents⟩ ↔ Gate.Form body ⟨kind, parents⟩ :=
        fun body => gate?_eq_some_iff_form fun items => all?_eq_some_iff parents
      constructor
      · intro h
        rcases exists_of_ofJson? h with ⟨_, _, ⟨⟩⟩ | ⟨body, _, rfl, hbody, ⟨⟩⟩
        exact .inline ((hgate body).1 hbody)
      · intro h
        cases h with
        | inline hbody => rw [ofJson?_inline, (hgate _).2 hbody, Option.map_some, Gate.inline]

theorem all?_eq_some_iff {js : List Json} : (ps : List Parent) → (all? js = some ps ↔ Forms js ps)
  | [] => by
      cases js with
      | nil => exact iff_of_true rfl .nil
      | cons j js =>
          rw [all?_cons_eq_some_iff]
          exact iff_of_false nofun nofun
  | p :: ps => by
      cases js with
      | nil => exact iff_of_false nofun nofun
      | cons j js =>
          rw [all?_cons_eq_some_iff]
          constructor
          · rintro ⟨_, _, ⟨⟩, hp, hps⟩
            exact .cons ((ofJson?_eq_some_iff p).1 hp) ((all?_eq_some_iff ps).1 hps)
          · intro h
            cases h with
            | cons hp hps =>
                exact ⟨p, ps, rfl, (ofJson?_eq_some_iff p).2 hp, (all?_eq_some_iff ps).2 hps⟩

end

/-! ### The written form -/

theorem toJson_inline (kind : Kind) (parents : List Parent) :
    (inline kind parents).toJson = .object [("inline", Gate.toJson ⟨kind, parents⟩)] := by
  rw [toJson, Gate.toJson]

theorem form_toJson_gate {kind : Kind} {parents : List Parent}
    (h : Forms (listToJson parents) parents) :
    Gate.Form (Gate.toJson ⟨kind, parents⟩) ⟨kind, parents⟩ :=
  .record (.object (.cons rfl (.cons rfl .nil))) kind.form_toJson h

mutual

theorem form_toJson : (p : Parent) → Form p.toJson p
  | .named name => .named name
  | .inline kind parents => by
      rw [toJson_inline]
      exact .inline (form_toJson_gate (forms_listToJson parents))

theorem forms_listToJson : (ps : List Parent) → Forms (listToJson ps) ps
  | [] => .nil
  | p :: ps => .cons (form_toJson p) (forms_listToJson ps)

end

theorem depth_toJson_gate {kind : Kind} {parents : List Parent} :
    (Gate.toJson ⟨kind, parents⟩).depth =
      max kind.toJson.depth (Json.array (listToJson parents)).depth + 1 := by
  simp only [Gate.toJson, Json.depth, Json.depthMembers, Nat.max_zero]

theorem depth_le_of_form_gate {j : Json} {kind : Kind} {parents : List Parent}
    (hall : ∀ items, Forms items parents →
      Json.depthItems (listToJson parents) ≤ Json.depthItems items)
    (h : Gate.Form j ⟨kind, parents⟩) : (Gate.toJson ⟨kind, parents⟩).depth ≤ j.depth := by
  cases h with
  | @record _ kindForm items _ hrecord hkind hparents =>
      have hkindForm := hrecord.depth_lt kindForm (by simp)
      have hitems := hrecord.depth_lt (.array items) (by simp)
      have hk : kind.toJson.depth ≤ kindForm.depth := hkind.depth_le
      have hp : Json.depthItems (listToJson parents) ≤ Json.depthItems items := hall items hparents
      rw [depth_toJson_gate]
      simp only [Json.depth] at hitems ⊢
      omega

mutual

/-- The form that is written nests no deeper than any other. -/
theorem depth_le_of_form {j : Json} : (p : Parent) → Form j p → p.toJson.depth ≤ j.depth
  | .named name, h => by
      cases h with
      | named => exact Nat.le_refl _
  | .inline kind parents, h => by
      cases h with
      | @inline body _ _ hgate =>
          have hbody := depth_le_of_form_gate (fun items => depthItems_le_of_forms parents) hgate
          rw [toJson_inline]
          simp only [Json.depth, Json.depthMembers, Nat.max_zero] at hbody ⊢
          omega

theorem depthItems_le_of_forms {js : List Json} : (ps : List Parent) → Forms js ps →
    Json.depthItems (listToJson ps) ≤ Json.depthItems js
  | [], _ => Nat.zero_le _
  | p :: ps, h => by
      cases h with
      | @cons j js _ _ hp hps =>
          have hhead := depth_le_of_form p hp
          have htail := depthItems_le_of_forms ps hps
          simp only [listToJson, Json.depthItems]
          omega

end

-- Every level is as low as it can be, so that those of the parts need not be compared.
theorem isPlain_toJson_gate {kind : Kind} {parents : List Parent}
    (hall : ∀ j ∈ listToJson parents, j.IsPlain j.depth) :
    (Gate.toJson ⟨kind, parents⟩).IsPlain (Gate.toJson ⟨kind, parents⟩).depth := by
  refine Json.isPlain_object fun m hm => ?_
  rcases List.mem_pair.1 hm with rfl | rfl
  · have hkind : kind.toJson.IsPlain (0 + 2) := kind.isPlain_toJson
    exact hkind.of_depth_le (Nat.le_refl _)
  · exact Json.isPlain_array hall

mutual

theorem isPlain_toJson : (p : Parent) → p.toJson.IsPlain p.toJson.depth
  | .named name => by
      refine Json.isPlain_object fun m hm => ?_
      rw [List.mem_singleton.1 hm]
      exact .string name
  | .inline kind parents => by
      rw [toJson_inline]
      refine Json.isPlain_object fun m hm => ?_
      rw [List.mem_singleton.1 hm]
      exact isPlain_toJson_gate (isPlain_of_mem_listToJson parents)

theorem isPlain_of_mem_listToJson : (ps : List Parent) → ∀ j ∈ listToJson ps, j.IsPlain j.depth
  | [], _, hj => by contradiction
  | p :: ps, j, hj => by
      rcases List.mem_cons.1 hj with rfl | hj
      · exact isPlain_toJson p
      · exact isPlain_of_mem_listToJson ps j hj

end

end Parent

/-! ### Main statement -/

namespace Gate

variable {gate : Gate} {j : Json} {text : String}

theorem ofJson?_eq_some_iff : ofJson? j = some gate ↔ Form j gate :=
  Parent.gate?_eq_some_iff_form fun _ => Parent.all?_eq_some_iff gate.parents

theorem form_toJson (gate : Gate) : Form gate.toJson gate :=
  Parent.form_toJson_gate (Parent.forms_listToJson gate.parents)

theorem Form.depth_le (h : Form j gate) : gate.toJson.depth ≤ j.depth :=
  Parent.depth_le_of_form_gate (fun _ => Parent.depthItems_le_of_forms gate.parents) h

theorem parse?_eq_some_iff :
    parse? text = some gate ↔ ∃ j, Json.parse? text = some j ∧ Form j gate := by
  simp only [parse?, Option.bind_eq_some_iff, ofJson?_eq_some_iff]

theorem parse?_compact (h : Form j gate) (hplain : j.IsPlain Json.maxDepth) :
    parse? j.compact = some gate :=
  parse?_eq_some_iff.2 ⟨j, Json.parse?_of_spells hplain hplain.spells_compact, h⟩

theorem parse?_json (h : gate.toJson.depth ≤ Json.maxDepth) : parse? gate.json = some gate := by
  have hplain : gate.toJson.IsPlain gate.toJson.depth :=
    Parent.isPlain_toJson_gate (Parent.isPlain_of_mem_listToJson gate.parents)
  exact parse?_compact gate.form_toJson (hplain.of_depth_le h)

theorem depth_le_of_parse? (h : parse? text = some gate) : gate.toJson.depth ≤ Json.maxDepth := by
  obtain ⟨j, hj, hform⟩ := parse?_eq_some_iff.1 h
  exact Nat.le_trans hform.depth_le (Json.depth_le_of_parse? hj)

/-- A gate comes back from its text if and only if its containers do not nest too deeply. A text is
read as a gate if and only if its value is one of the forms of the gate; and the gate is then
written in one text, which is read as the same gate and written again as the same text. -/
theorem json_round_trip (gate : Gate) :
    (parse? gate.json = some gate ↔ gate.toJson.depth ≤ Json.maxDepth) ∧
    (∀ text, parse? text = some gate ↔ ∃ j, Json.parse? text = some j ∧ Form j gate) ∧
    (∀ j : Json, Form j gate → j.IsPlain Json.maxDepth → parse? j.compact = some gate) ∧
    ∀ text, parse? text = some gate →
      parse? gate.json = some gate ∧ (parse? gate.json).map json = some gate.json := by
  refine ⟨⟨depth_le_of_parse?, parse?_json⟩, fun text => parse?_eq_some_iff,
    fun j => parse?_compact, fun text h => ?_⟩
  have hjson := parse?_json (depth_le_of_parse? h)
  exact ⟨hjson, by rw [hjson, Option.map_some]⟩

/-- Labels stand as choices, lists as records, and one record has a field too many. -/
def pierText : String :=
  "[\x7b\"and\":null\x7d, [\x7b\"inline\":\x7b\"parents\":[], \"x\":7, "
    ++ "\"kind\":\x7b\"count\":[2]\x7d\x7d\x7d]]"

def pierGate : Gate :=
  ⟨.and, [.inline (.count 2) []]⟩

theorem json_round_trip_pier : parse? pierText = some pierGate ∧
    pierGate.json = "\x7b\"kind\":\"and\",\"parents\":[\x7b\"inline\":\x7b\"kind\":"
      ++ "\x7b\"count\":\x7b\"min\":2\x7d\x7d,\"parents\":[]\x7d\x7d]\x7d" ∧
    parse? pierGate.json = some pierGate := by
  have hparse : parse? pierText = some pierGate := by cbv
  exact ⟨hparse, by cbv, ((json_round_trip pierGate).2.2.2 pierText hparse).1⟩

end Gate

end Progression

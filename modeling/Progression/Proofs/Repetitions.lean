import Progression.Proofs.Grammar

/-!
Objects as they are written. A gate is an object with one key, but the reader counts keys when
repeated ones have been resolved. So an object may be written with several members as long as they
share their key, and all but the last of them are dropped. Main statement: what is accepted is
accepted in this way only. Where no key is repeated, every object has exactly one member.
-/

namespace Progression

namespace Json

/-! ### Objects inside a value -/

mutual

/-- The members of every object in the value, at any depth, as they are written. -/
def objects : Json → List (List (String × Json))
  | .array items => objectsItems items
  | .object members => members :: objectsMembers members
  | _ => []

def objectsItems : List Json → List (List (String × Json))
  | [] => []
  | j :: js => j.objects ++ objectsItems js

def objectsMembers : List (String × Json) → List (List (String × Json))
  | [] => []
  | (_, j) :: ms => j.objects ++ objectsMembers ms

end

mutual

/-- The objects that are left when repeated keys are resolved, as they are written. What stands in
a member whose key comes again is dropped with it. -/
def liveObjects : Json → List (List (String × Json))
  | .array items => liveItems items
  | .object members => members :: liveMembers members
  | _ => []

def liveItems : List Json → List (List (String × Json))
  | [] => []
  | j :: js => j.liveObjects ++ liveItems js

def liveMembers : List (String × Json) → List (List (String × Json))
  | [] => []
  | (key, j) :: ms => (if ms.any (·.1 == key) then [] else j.liveObjects) ++ liveMembers ms

end

theorem resolvedMembers_eq (members : List (String × Json)) :
    resolvedMembers members = members.map fun m => (m.1, m.2.resolved) := by
  induction members with
  | nil => rfl
  | cons m ms ih => rw [resolvedMembers, ih, List.map_cons]

@[simp] theorem any_resolvedMembers (key : String) (members : List (String × Json)) :
    (resolvedMembers members).any (·.1 == key) = members.any (·.1 == key) := by
  rw [resolvedMembers_eq, List.any_map]
  rfl

mutual

theorem objects_resolved : (j : Json) →
    j.resolved.objects = j.liveObjects.map fun o => distinct (resolvedMembers o)
  | .array items => objectsItems_resolved items
  | .object members => congrArg _ (objectsMembers_resolved members)
  | .null | .bool _ | .number _ | .string _ | .unreadable => rfl

theorem objectsItems_resolved : (items : List Json) →
    objectsItems (resolvedItems items) =
      (liveItems items).map fun o => distinct (resolvedMembers o)
  | [] => rfl
  | j :: js => by
      rw [resolvedItems, objectsItems, liveItems, List.map_append, objects_resolved j,
        objectsItems_resolved js]

theorem objectsMembers_resolved : (members : List (String × Json)) →
    objectsMembers (distinct (resolvedMembers members)) =
      (liveMembers members).map fun o => distinct (resolvedMembers o)
  | [] => rfl
  | (key, j) :: ms => by
      rw [resolvedMembers, distinct, liveMembers, any_resolvedMembers, List.map_append,
        ← objectsMembers_resolved ms]
      split
      · rfl
      · rw [objectsMembers, objects_resolved j]

end

mutual

/-- Nothing is dropped where no key is repeated. -/
theorem liveObjects_of_nodup : (j : Json) → (∀ o ∈ j.objects, (o.map Prod.fst).Nodup) →
    j.liveObjects = j.objects
  | .array items, h => liveItems_of_nodup items h
  | .object members, h => by
      obtain ⟨hkeys, hmembers⟩ := List.forall_mem_cons.1 h
      exact congrArg _ (liveMembers_of_nodup members hkeys hmembers)
  | .null, _ | .bool _, _ | .number _, _ | .string _, _ | .unreadable, _ => rfl

theorem liveItems_of_nodup : (items : List Json) →
    (∀ o ∈ objectsItems items, (o.map Prod.fst).Nodup) → liveItems items = objectsItems items
  | [], _ => rfl
  | j :: js, h => by
      obtain ⟨hj, hjs⟩ := List.forall_mem_append.1 h
      rw [liveItems, objectsItems, liveObjects_of_nodup j hj, liveItems_of_nodup js hjs]

theorem liveMembers_of_nodup : (members : List (String × Json)) → (members.map Prod.fst).Nodup →
    (∀ o ∈ objectsMembers members, (o.map Prod.fst).Nodup) →
    liveMembers members = objectsMembers members
  | [], _, _ => rfl
  | (key, j) :: ms, hkeys, h => by
      obtain ⟨hkey, hkeys⟩ := List.nodup_cons.1 hkeys
      obtain ⟨hj, hms⟩ := List.forall_mem_append.1 h
      have hlast : ms.any (·.1 == key) = false := by
        rw [List.any_eq_false]
        intro m hm heq
        exact hkey (List.mem_map.2 ⟨m, hm, beq_iff_eq.1 heq⟩)
      rw [liveMembers, objectsMembers, hlast, liveObjects_of_nodup j hj,
        liveMembers_of_nodup ms hkeys hms]
      rfl

end

/-- What comes down to one member has members of one key. -/
theorem key_eq_of_distinct {members : List (String × Json)} {m : String × Json}
    (h : distinct (resolvedMembers members) = [m]) :
    members ≠ [] ∧ ∀ x ∈ members, x.1 = m.1 := by
  have hkeys : ∀ key, key = m.1 ↔ key ∈ members.map Prod.fst := by
    intro key
    have hmap : (resolvedMembers members).map Prod.fst = members.map Prod.fst := by
      rw [resolvedMembers_eq, List.map_map]
      rfl
    rw [← hmap, ← Authoring.mem_map_fst_distinct, h, List.map_singleton, List.mem_singleton]
  constructor
  · rintro rfl
    exact absurd ((hkeys m.1).1 rfl) List.not_mem_nil
  · exact fun x hx => (hkeys x.1).2 (List.mem_map_of_mem hx)

end Json

namespace Authoring

open Json

/-! ### Objects inside a rule -/

mutual

/-- The grammar knows objects with one member only. -/
theorem exists_singleton_of_writes : (j : Json) → {g : Gate} → Writes j g →
    ∀ o ∈ j.objects, ∃ m, o = [m]
  | .null, _, _ | .string _, _, _ => List.forall_mem_nil _
  | .array items, _, .list h => exists_singleton_of_writesAll items h
  | .object members, _, h => exists_singleton_of_writesMembers members h

theorem exists_singleton_of_writesMembers : (members : List (String × Json)) → {g : Gate} →
    Writes (.object members) g → ∀ o ∈ members :: objectsMembers members, ∃ m, o = [m]
  | [(key, body)], g, h => by
      refine List.forall_mem_cons.2 ⟨⟨_, rfl⟩, ?_⟩
      rw [objectsMembers, objectsMembers, List.append_nil]
      cases h with
      | kind _ hbody => exact exists_singleton_of_writesBody body hbody
      | count resource _ => exact List.forall_mem_nil _
  | [], _, h => by nomatch h
  | _ :: _ :: _, _, h => by nomatch h

theorem exists_singleton_of_writesBody : (j : Json) → {ps : List Parent} → WritesBody j ps →
    ∀ o ∈ j.objects, ∃ m, o = [m]
  | .null, _, _ | .string _, _, _ => List.forall_mem_nil _
  | .array items, _, .list h => exists_singleton_of_writesAll items h
  | .object members, _, .gate h => exists_singleton_of_writesMembers members h

theorem exists_singleton_of_writesAll : (items : List Json) → {ps : List Parent} →
    WritesAll items ps → ∀ o ∈ objectsItems items, ∃ m, o = [m]
  | [], _, _ => List.forall_mem_nil _
  | .string _ :: js, _, .name _ h => exists_singleton_of_writesAll js h
  | j :: js, _, .gate _ h hrest =>
      List.forall_mem_append.2
        ⟨exists_singleton_of_writes j h, exists_singleton_of_writesAll js hrest⟩

end

variable {j : Json} {gate : Gate}

/-- In a rule, the members of an object that is read share their key. -/
theorem key_eq_of_writes (h : Writes j.resolved gate) {o : List (String × Json)}
    (ho : o ∈ j.liveObjects) : ∃ key, o ≠ [] ∧ ∀ x ∈ o, x.1 = key := by
  have hresolved : distinct (resolvedMembers o) ∈ j.resolved.objects := by
    rw [objects_resolved]
    exact List.mem_map_of_mem ho
  obtain ⟨m, hm⟩ := exists_singleton_of_writes j.resolved h _ hresolved
  exact ⟨m.1, key_eq_of_distinct hm⟩

/-- The objects of a rule have one member each exactly if none of them repeats a key. -/
theorem forall_singleton_iff_of_writes (h : Writes j.resolved gate) :
    (∀ o ∈ j.objects, ∃ m, o = [m]) ↔ ∀ o ∈ j.objects, (o.map Prod.fst).Nodup := by
  constructor
  · intro hsingle o ho
    obtain ⟨m, rfl⟩ := hsingle o ho
    exact List.nodup_singleton _
  · intro hkeys o ho
    rw [← liveObjects_of_nodup j hkeys] at ho
    obtain ⟨key, hne, hkey⟩ := key_eq_of_writes h ho
    have hnodup := hkeys o (liveObjects_of_nodup j hkeys ▸ ho)
    match o with
    | [] => exact absurd rfl hne
    | [m] => exact ⟨m, rfl⟩
    | m :: m' :: ms =>
        have hsame : m.1 = m'.1 := (hkey m (by simp)).trans (hkey m' (by simp)).symm
        simp [hsame] at hnodup

end Authoring

namespace Table

open Authoring

variable {text name : String} {members : List (String × Json)}

theorem transcribes_of_load (hparse : Json.parse? text = some (.object members)) {table : Table}
    (h : load name .json text = .ok table) : Transcribes members table.entries := by
  have hmembers : TableFormat.json.members? text =
      if Json.areReadable members then some members else none := by
    rw [TableFormat.members?, hparse]
  rw [load, hmembers] at h
  split at h
  case isTrue => contradiction
  case isFalse =>
      split at h
      case h_1 => contradiction
      case h_2 found hfound =>
          obtain ⟨-, hsame⟩ := Option.ite_none_right_eq_some.1 hfound
          obtain rfl := Option.some.inj hsame
          rcases entries?_spec members with ⟨entries, hentries, hspec⟩ | ⟨e, hentries, -⟩
          · rw [hentries] at h
            obtain rfl := Except.ok.inj h
            exact hspec
          · rw [hentries] at h
            contradiction

/-- A text with different keys in one object is refused, unless the object is dropped as a whole. In
a text that is accepted, every object that is read has members of one key, of which the last is
read, and the objects of a rule have exactly one member each if and only if none repeats a key. -/
theorem load_json_keys (hparse : Json.parse? text = some (.object members)) (name : String) :
    (∀ m ∈ members, ∀ o ∈ m.2.liveObjects, ∀ x ∈ o, ∀ y ∈ o, x.1 ≠ y.1 →
      ∃ e, load name .json text = .error e) ∧
    ∀ table, load name .json text = .ok table →
      Transcribes members table.entries ∧
      (∀ m ∈ members, ∀ o ∈ m.2.liveObjects, ∃ key, o ≠ [] ∧ ∀ x ∈ o, x.1 = key) ∧
      ∀ m ∈ members, (∀ o ∈ m.2.objects, ∃ x, o = [x]) ↔
        ∀ o ∈ m.2.objects, (o.map Prod.fst).Nodup := by
  have haccepted : ∀ table, load name .json text = .ok table → ∀ m ∈ members, IsRule m.2 :=
    fun table h => (transcribes_of_load hparse h).isRule
  constructor
  · intro m hm o ho x hx y hy hne
    cases hload : load name .json text with
    | error e => exact ⟨e, rfl⟩
    | ok table =>
        obtain ⟨gate, hwrites, -⟩ := haccepted table hload m hm
        obtain ⟨key, -, hkey⟩ := key_eq_of_writes hwrites ho
        exact absurd ((hkey x hx).trans (hkey y hy).symm) hne
  · intro table hload
    refine ⟨transcribes_of_load hparse hload, fun m hm o ho => ?_, fun m hm => ?_⟩
    · obtain ⟨gate, hwrites, -⟩ := haccepted table hload m hm
      exact key_eq_of_writes hwrites ho
    · obtain ⟨gate, hwrites, -⟩ := haccepted table hload m hm
      exact forall_singleton_iff_of_writes hwrites

/-- The label is repeated, so the first two bodies are dropped, and with them an object of two
keys. -/
def lockText : String :=
  "\x7b\"lock\": \x7b\"or\": \x7b\"and\": \"a\", \"or\": \"b\"\x7d, \"or\": 7, \"or\": [\"key\"]\x7d\x7d"

def lockMembers : List (String × Json) :=
  [("lock", .object [("or", .object [("and", .string "a"), ("or", .string "b")]), ("or", .nat 7),
    ("or", .array [.string "key"])])]

def lockTable : Table :=
  { name := "t", entries := [("lock", ⟨.or, [.named "key"]⟩)] }

theorem load_json_keys_lock :
    Json.parse? lockText = some (.object lockMembers) ∧ load "t" .json lockText = .ok lockTable ∧
      Transcribes lockMembers lockTable.entries ∧
      (∀ m ∈ lockMembers, ∀ o ∈ m.2.liveObjects, ∃ key, o ≠ [] ∧ ∀ x ∈ o, x.1 = key) ∧
      ∀ m ∈ lockMembers, (∀ o ∈ m.2.objects, ∃ x, o = [x]) ↔
        ∀ o ∈ m.2.objects, (o.map Prod.fst).Nodup := by
  have hparse : Json.parse? lockText = some (.object lockMembers) := by cbv
  have hload : load "t" .json lockText = .ok lockTable := by cbv
  exact ⟨hparse, hload, (load_json_keys hparse "t").2 lockTable hload⟩

/-- Two bodies of a gate are written, and the rule is loaded with one of them. -/
theorem load_drops_body :
    Json.parse? "\x7b\"r\":\x7b\"or\":[\"a\"],\"or\":[\"b\"]\x7d\x7d" = some (.object
        [("r", .object [("or", .array [.string "a"]), ("or", .array [.string "b"])])]) ∧
      load "t" .json "\x7b\"r\":\x7b\"or\":[\"a\"],\"or\":[\"b\"]\x7d\x7d" =
        .ok { name := "t", entries := [("r", ⟨.or, [.named "b"]⟩)] } ∧
      ¬ ∀ o ∈ (Json.object [("or", .array [.string "a"]), ("or", .array [.string "b"])]).objects,
        ∃ x, o = [x] := by
  refine ⟨by cbv, by cbv, fun hsingle => ?_⟩
  obtain ⟨x, hx⟩ := hsingle _ List.mem_cons_self
  simp at hx

end Table

end Progression

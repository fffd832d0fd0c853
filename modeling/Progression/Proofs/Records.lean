import Mathlib.Data.List.Forall2
import Progression.Json.Record
import Progression.Proofs.Nesting

/-!
Typed data and its forms. A record may be written as an object or as a list, a choice without data
as a name or as an object. Main statement: the fields of a record are read of both of its forms, and
of nothing else.
-/

namespace Progression

namespace Json

/-- A record has one member for each of its fields, and may have others, or is the list of its
fields. -/
inductive IsRecord (names : List String) : Json → List Json → Prop
  | object {members : List (String × Json)} {values : List Json} :
      List.Forall₂ (fun name value => members.filter (·.1 == name) = [(name, value)]) names values →
      IsRecord names (.object members) values
  | array {values : List Json} : values.length = names.length →
      IsRecord names (.array values) values

namespace IsRecord

variable {names : List String} {j : Json} {values : List Json}

theorem depth_lt (h : IsRecord names j values) : ∀ value ∈ values, value.depth < j.depth := by
  cases h with
  | array _ => exact fun value => depth_lt_of_mem_items
  | @object members _ hfields =>
      intro value hvalue
      obtain ⟨name, hfield⟩ : ∃ name, members.filter (·.1 == name) = [(name, value)] := by
        induction hfields with
        | nil => contradiction
        | @cons name _ _ _ hfield _ ih =>
            rcases List.mem_cons.1 hvalue with rfl | hvalue
            · exact ⟨name, hfield⟩
            · exact ih hvalue
      have hmem : (name, value) ∈ members.filter (·.1 == name) := hfield ▸ List.mem_singleton_self _
      exact depth_lt_of_mem_members (List.mem_filter.1 hmem).1

end IsRecord

/-- A field is given once if and only if it is found and not repeated. -/
theorem filter_eq_singleton_iff {members : List (String × Json)} {name : String} {value : Json} :
    members.filter (·.1 == name) = [(name, value)] ↔
      ¬ 1 < members.countP (·.1 == name) ∧ lookup? name members = some value := by
  have hname : ∀ m ∈ members.filter (·.1 == name), m.1 = name :=
    fun m hm => beq_iff_eq.1 (List.mem_filter.1 hm).2
  rw [lookup?, ← List.head?_filter, List.countP_eq_length_filter]
  generalize members.filter (·.1 == name) = found at hname ⊢
  match found with
  | [] => simp
  | [m] => simp [Prod.ext_iff, hname m]
  | _ :: _ :: _ => simp

/-- Items are looked up by place, up to the number of fields. -/
theorem map_getElem?_eq_iff {names : List String} {items values : List Json} :
    ¬ names.length < items.length ∧ names.zipIdx.map (fun field => items[field.2]?) =
        values.map some ↔ values = items ∧ values.length = names.length := by
  have hget : ∀ i, (names.zipIdx.map fun field => items[field.2]?)[i]? =
      if i < names.length then some items[i]? else none := by
    intro i
    by_cases hi : i < names.length <;> simp [hi]
  constructor
  · rintro ⟨hshort, heq⟩
    have hlength : names.length = values.length := by simpa using congrArg List.length heq
    refine ⟨List.ext_getElem? fun i => ?_, hlength.symm⟩
    have hi := hget i
    rw [heq, List.getElem?_map] at hi
    by_cases hlt : i < names.length
    · rw [if_pos hlt, List.getElem?_eq_getElem (hlength ▸ hlt)] at hi
      rw [List.getElem?_eq_getElem (hlength ▸ hlt)]
      exact Option.some.inj hi
    · rw [List.getElem?_eq_none (by omega), List.getElem?_eq_none (by omega)]
  · rintro ⟨rfl, hlength⟩
    refine ⟨by omega, List.ext_getElem? fun i => ?_⟩
    rw [hget i, List.getElem?_map, ← hlength]
    by_cases hlt : i < values.length
    · rw [if_pos hlt, List.getElem?_eq_getElem hlt, Option.map_some]
    · rw [if_neg hlt, List.getElem?_eq_none (by omega), Option.map_none]

/-- All fields are read of a record, and of nothing else. -/
theorem fields?_eq_some_iff {names : List String} {j : Json} {values : List Json} :
    fields? .json false names j = some (values.map some) ↔ IsRecord names j values := by
  cases j with
  | object members =>
      have hvalues : names.map (lookup? · members) = values.map some ↔
          List.Forall₂ (fun name value => lookup? name members = some value) names values := by
        rw [← List.forall₂_eq_eq_eq, List.forall₂_map_left_iff, List.forall₂_map_right_iff]
      have hfields : fields? .json false names (.object members) = some (values.map some) ↔
          (∀ name ∈ names, ¬ 1 < members.countP (·.1 == name)) ∧
            names.map (lookup? · members) = values.map some := by
        simp [fields?, repeatsField]
      rw [hfields, hvalues, ← List.forall₂_and_left]
      simp only [← filter_eq_singleton_iff]
      exact ⟨.object, fun | .object h => h⟩
  | array items =>
      have hfields : fields? .json false names (.array items) = some (values.map some) ↔
          ¬ names.length < items.length ∧
            names.zipIdx.map (fun field => items[field.2]?) = values.map some := by
        simp [fields?, Dialect.json]
      rw [hfields, map_getElem?_eq_iff]
      constructor
      · rintro ⟨rfl, hlength⟩
        exact .array hlength
      · intro h
        cases h with
        | array hlength => exact ⟨rfl, hlength⟩
  | _ => exact iff_of_false nofun nofun

theorem choice?_eq_some_iff {j : Json} {name : String} :
    choice? .json j = some name ↔ j = .string name ∨ j = .object [(name, .null)] := by
  unfold choice?
  split
  next => simp
  next name' body => cases body <;> simp [Dialect.json, isNull]
  next hstring hobject =>
    refine iff_of_false nofun ?_
    rintro (rfl | rfl)
    · exact hstring name rfl
    · exact hobject name .null rfl

@[simp] theorem text?_eq_some_iff {j : Json} {s : String} : text? j = some s ↔ j = .string s := by
  cases j <;> simp [text?]

theorem natural?_eq_some_iff {bound n : Nat} {j : Json} :
    natural? bound j = some n ↔ j = .nat n ∧ n < bound := by
  unfold natural?
  split
  next m =>
    rw [Option.ite_none_right_eq_some, Option.some.injEq]
    constructor
    · rintro ⟨hlt, rfl⟩
      exact ⟨rfl, hlt⟩
    · rintro ⟨⟨⟩, hlt⟩
      exact ⟨hlt, rfl⟩
  next hnumber => exact iff_of_false nofun fun h => hnumber n h.1

end Json

end Progression

import Mathlib.Data.List.Nodup
import Mathlib.Data.List.Perm.Basic
import Progression.Rulebook

/-!
Merging, as far as the later stages rely on it: a rulebook holds the rules of its tables, and
no name has two rules.
-/

namespace Progression.Rulebook

/-- There is no clash exactly if no name is met twice. -/
theorem clash?_eq_none_iff (rules seen : List Rule) :
    clash? seen rules = none ↔
      (rules.map Rule.name).Nodup ∧ ∀ r ∈ rules, ∀ q ∈ seen, q.name ≠ r.name := by
  induction rules generalizing seen with
  | nil => simp [clash?]
  | cons r rules ih =>
      rw [clash?]
      cases hfind : seen.find? (·.name == r.name) with
      | some first =>
          have hsame : first.name = r.name := by simpa using List.find?_some hfind
          have hmem : first ∈ seen := List.mem_of_find?_eq_some hfind
          simp only [reduceCtorEq, false_iff, not_and]
          exact fun _ hnew => hnew r List.mem_cons_self first hmem hsame
      | none =>
          -- The first rule is new, so all that is left is that the others differ from it too.
          have hnew : ∀ q ∈ seen, q.name ≠ r.name := by
            simpa using List.find?_eq_none.1 hfind
          simp only
          rw [ih, List.map_cons, List.nodup_cons]
          constructor
          · rintro ⟨hnodup, hall⟩
            refine ⟨⟨?_, hnodup⟩, ?_⟩
            · intro hmem
              obtain ⟨q, hq, heq⟩ := List.mem_map.1 hmem
              exact hall q hq r List.mem_cons_self heq.symm
            · intro q hq p hp
              rcases List.mem_cons.1 hq with rfl | hq
              · exact hnew p hp
              · exact hall q hq p (List.mem_cons_of_mem r hp)
          · rintro ⟨⟨hfirst, hnodup⟩, hall⟩
            refine ⟨hnodup, fun q hq p hp => ?_⟩
            rcases List.mem_cons.1 hp with rfl | hp
            · exact fun heq => hfirst (heq ▸ List.mem_map_of_mem hq)
            · exact hall q (List.mem_cons_of_mem r hq) p hp

variable {tables : List Table} {book : Rulebook}

/-- A rulebook holds the rules of its tables, each once. -/
theorem rules_perm (h : ofTables tables = .ok book) :
    book.rules.Perm (tables.flatMap Table.rules) := by
  simp only [ofTables] at h
  split at h
  · contradiction
  · obtain rfl := Except.ok.inj h
    exact List.mergeSort_perm _ _

theorem names_nodup (h : ofTables tables = .ok book) : book.names.Nodup := by
  have hperm := (rules_perm h).map Rule.name
  refine hperm.nodup_iff.2 ?_
  simp only [ofTables] at h
  split at h
  · contradiction
  case h_2 hnone => exact ((clash?_eq_none_iff _ _).1 hnone).1

/-- Every rule stands in one of the tables, which is its source. -/
theorem exists_table_of_mem_flatMap {r : Rule} (hr : r ∈ tables.flatMap Table.rules) :
    ∃ t ∈ tables, (r.name, r.gate) ∈ t.entries ∧ r.source = t.name ∧
      r.placeable = t.placeable := by
  obtain ⟨t, ht, hmem⟩ := List.mem_flatMap.1 hr
  obtain ⟨⟨name, gate⟩, hentry, rfl⟩ := List.mem_map.1 hmem
  exact ⟨t, ht, hentry, rfl, rfl⟩

theorem exists_table (h : ofTables tables = .ok book) {r : Rule} (hr : r ∈ book.rules) :
    ∃ t ∈ tables, (r.name, r.gate) ∈ t.entries ∧ r.source = t.name ∧
      r.placeable = t.placeable :=
  exists_table_of_mem_flatMap ((rules_perm h).mem_iff.1 hr)

theorem mem_flatMap_rules_iff {r : Rule} :
    r ∈ tables.flatMap Table.rules ↔
      ∃ t ∈ tables, (r.name, r.gate) ∈ t.entries ∧ r.source = t.name ∧
        r.placeable = t.placeable := by
  refine ⟨exists_table_of_mem_flatMap, ?_⟩
  rintro ⟨t, ht, hentry, hsource, hplaceable⟩
  refine List.mem_flatMap.2 ⟨t, ht, List.mem_map.2 ⟨_, hentry, ?_⟩⟩
  obtain ⟨name, gate, source, placeable⟩ := r
  simp only at hsource hplaceable
  rw [hsource, hplaceable]

theorem mem_rules_iff (h : ofTables tables = .ok book) {r : Rule} :
    r ∈ book.rules ↔
      ∃ t ∈ tables, (r.name, r.gate) ∈ t.entries ∧ r.source = t.name ∧
        r.placeable = t.placeable :=
  (rules_perm h).mem_iff.trans mem_flatMap_rules_iff

/-- Marked rules are the entries of marked tables. -/
theorem exists_placeable_rule_iff (h : ofTables tables = .ok book) (P : Gate → Prop)
    (name : String) :
    (∃ r ∈ book.rules, r.name = name ∧ r.placeable = true ∧ P r.gate) ↔
      ∃ t ∈ tables, t.placeable = true ∧ ∃ gate, (name, gate) ∈ t.entries ∧ P gate := by
  constructor
  · rintro ⟨r, hr, rfl, hplaceable, hgate⟩
    obtain ⟨t, ht, hentry, -, hmarked⟩ := (mem_rules_iff h).1 hr
    exact ⟨t, ht, hmarked ▸ hplaceable, r.gate, hentry, hgate⟩
  · rintro ⟨t, ht, hplaceable, gate, hentry, hgate⟩
    have hr := (mem_rules_iff h (r := ⟨name, gate, t.name, t.placeable⟩)).2
      ⟨t, ht, hentry, rfl, rfl⟩
    exact ⟨_, hr, rfl, hplaceable, hgate⟩

/-- Keys without repetition lead to what they are keys of. -/
theorem find?_key_eq_some {α : Type} (key : α → String) {l : List α} (hnodup : (l.map key).Nodup)
    {a : α} (ha : a ∈ l) : l.find? (key · == key a) = some a := by
  cases hfind : l.find? (key · == key a) with
  | none => exact absurd (List.find?_eq_none.1 hfind a ha) (by simp)
  | some b =>
      have hsame : key b = key a := by simpa using List.find?_some hfind
      rw [List.inj_on_of_nodup_map hnodup (List.mem_of_find?_eq_some hfind) ha hsame]

end Progression.Rulebook

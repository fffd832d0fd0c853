import Progression.Interchange.Record
import Progression.Proofs.Exporting
import Progression.Proofs.Printing

/-!
Exports read back from their text. Every part of an export has one form in JSON, and its reader
takes that form for the part. Main statement: the text of a frozen graph gives its export.
-/

namespace Progression

namespace Json

theorem natural?_nat {bound n : Nat} (h : n < bound) : natural? bound (nat n) = some n :=
  if_pos h

@[simp] theorem texts?_strings (names : List String) : texts? (strings names) = some names := by
  refine mapM_map_eq_some ?_ names
  exact fun _ => rfl

theorem IsPlain.strings {level : Nat} (names : List String) :
    (Json.strings names).IsPlain (level + 1) := by
  apply IsPlain.array
  intro j hj
  obtain ⟨s, -, rfl⟩ := List.mem_map.1 hj
  exact .string s

/-- Nothing is dropped from members that have different keys. -/
theorem distinct_of_nodup {α : Type} {members : List (String × α)}
    (h : (members.map Prod.fst).Nodup) : distinct members = members := by
  induction members with
  | nil => rfl
  | cons m ms ih =>
      obtain ⟨hm, hms⟩ := List.nodup_cons.1 h
      have hnone : ms.any (·.1 == m.1) = false := by
        rw [List.any_eq_false]
        intro n hn heq
        exact hm (List.mem_map.2 ⟨n, hn, beq_iff_eq.1 heq⟩)
      rw [distinct, hnone, ih hms]
      rfl

end Json

namespace Kind

@[simp] theorem ofJson?_toJson (kind : Kind) : ofJson? kind.toJson = some kind := by
  cases kind with
  | count min =>
      show (Json.natural? UInt32.size (.nat min.toNat)).map (fun n => count (UInt32.ofNat n)) = _
      rw [Json.natural?_nat min.toNat_lt_size, Option.map_some, UInt32.ofNat_toNat]
  | _ => rfl

theorem isPlain_toJson (kind : Kind) {level : Nat} : kind.toJson.IsPlain (level + 2) := by
  cases kind with
  | count min =>
      have hmin : min.toNat < UInt64.size := Nat.lt_trans min.toNat_lt_size (by decide)
      simp only [toJson]
      refine .object fun m hm => ?_
      rw [List.mem_singleton.1 hm]
      refine .object fun m hm => ?_
      rw [List.mem_singleton.1 hm]
      exact .nat hmin
  | _ => exact .string _

end Kind

namespace ExportedNode

theorem fields?_toJson (node : ExportedNode) :
    Json.fields? .json false ["kind", "parents", "placements", "source"] node.toJson =
      some [some node.kind.toJson, some (.strings node.parents),
        if node.placements.isEmpty then none else some (.strings node.placements),
        some (.string node.source)] := by
  rw [toJson]
  cases node.placements <;> rfl

@[simp] theorem ofJson?_toJson (node : ExportedNode) : ofJson? node.toJson = some node := by
  -- Placements are looked for whether they were written or not.
  have hplacements : Json.orDefault [] Json.texts?
      (if node.placements.isEmpty then none else some (.strings node.placements)) =
        some node.placements := by
    cases node.placements with
    | nil => rfl
    | cons p ps => exact Json.texts?_strings (p :: ps)
  rw [ofJson?, fields?_toJson]
  simp only [Kind.ofJson?_toJson, Json.texts?_strings, hplacements]
  rfl

theorem isPlain_toJson (node : ExportedNode) {level : Nat} : node.toJson.IsPlain (level + 3) := by
  refine .object fun m hm => ?_
  simp only [List.cons_append, List.nil_append, List.mem_cons,
    List.mem_append, List.not_mem_nil, or_false] at hm
  rcases hm with rfl | rfl | hm | rfl
  · exact node.kind.isPlain_toJson
  · exact .strings node.parents
  · have hm' : m = ("placements", .strings node.placements) := by
      split at hm
      · contradiction
      · exact List.mem_singleton.1 hm
    exact hm' ▸ .strings node.placements
  · exact .string node.source

/-- The list of placements is written if and only if it has something in it. -/
theorem exists_toJson_eq (node : ExportedNode) : ∃ fields, node.toJson = .object fields ∧
    (Json.lookup? "placements" fields = none ↔ node.placements = []) := by
  refine ⟨_, rfl, ?_⟩
  cases node.placements with
  | nil => exact iff_of_true rfl rfl
  | cons p ps => exact iff_of_false (fun h => Option.some_ne_none _ h) (List.cons_ne_nil p ps)

end ExportedNode

namespace Export

variable {e : Export}

theorem ofNodes_of_pairwise (h : e.Pairwise fun a b => a.1 < b.1) : ofNodes e = e :=
  List.mergeSort_of_pairwise (h.imp fun hab => decide_eq_true (le_of_lt hab))

theorem ofJson?_toJson (h : e.Pairwise fun a b => a.1 < b.1) : ofJson? e.toJson = some e := by
  have hnodup : (e.map Prod.fst).Nodup := List.pairwise_map.2 (h.imp ne_of_lt)
  rw [toJson, ofJson?, mapM_map_eq_some]
  · show some (ofNodes (Json.distinct e)) = _
    rw [Json.distinct_of_nodup hnodup, ofNodes_of_pairwise h]
  · intro entry
    exact congrArg (Option.map (entry.1, ·)) entry.2.ofJson?_toJson

theorem isPlain_toJson (e : Export) {level : Nat} : e.toJson.IsPlain (level + 4) := by
  refine .object fun m hm => ?_
  obtain ⟨entry, -, rfl⟩ := List.mem_map.1 hm
  exact entry.2.isPlain_toJson

theorem parse?_pretty (e : Export) : Json.parse? e.json = some e.toJson :=
  Json.parse?_pretty e.isPlain_toJson

end Export

/-! ### Main statement -/

/-- The text of an export can be read instead of it. -/
structure Export.ReadsBack (e : Export) : Prop where
  parse?_json : Export.parse? e.json = some e
  /-- Nodes are written one by one, and a list of placements only if it has something in it. -/
  exists_members : ∃ members, Json.parse? e.json = some (.object members) ∧
    members.map Prod.fst = e.map Prod.fst ∧
    ∀ name node, (name, node) ∈ e → ∃ fields, (name, .object fields) ∈ members ∧
      (Json.lookup? "placements" fields = none ↔ node.placements = [])

theorem Export.readsBack {e : Export} (h : e.Pairwise fun a b => a.1 < b.1) : e.ReadsBack where
  parse?_json := by
    rw [parse?, parse?_pretty]
    exact ofJson?_toJson h
  exists_members := by
    refine ⟨_, e.parse?_pretty, ?_, fun name node hmem => ?_⟩
    · rw [List.map_map]
      rfl
    · obtain ⟨fields, hfields, hplacements⟩ := node.exists_toJson_eq
      exact ⟨fields, hfields ▸ List.mem_map.2 ⟨(name, node), hmem, rfl⟩, hplacements⟩

/-- The text of a frozen graph gives its export. -/
theorem Compiled.Built.readsBack_toExport {k : Compiled} {journal : Journal} {g : Graph}
    (h : k.Built) (hfreeze : (k.freeze.run journal).1 = .ok g) : g.toExport.ReadsBack := by
  have hexport : g.toExport = k.table.toExport :=
    FlatTable.toExport_of_freeze h.wellFormed h.covered hfreeze
  rw [hexport]
  exact Export.readsBack h.wellFormed.shows_toExport.sorted

/-- Slot `s` holds an item whose name is a quote, and `c` asks for as many of them as can be asked
for. -/
def quoteCompiler : Compiler where
  tables := [⟨"t\n", false, [("\"", .root), ("c", .count 4294967295 "\""),
    ("s", ⟨.andSlot, [.named "c"]⟩)]⟩]

def quoteGraph : Graph :=
  ⟨[⟨"\"", ⟨.root, [], [2]⟩, "t\n", false⟩, ⟨"c", ⟨.count 4294967295, [0], []⟩, "t\n", false⟩,
    ⟨"s", ⟨.andSlot, [1], []⟩, "t\n", false⟩], [[1], [2], [0, 1]]⟩

theorem readsBack_quote : ∃ k, (quoteCompiler.compile.run {}).1 = .ok k ∧
    (((k.link [⟨"s", "\""⟩]).run {}).1.1.freeze.run {}).1 = .ok quoteGraph ∧
    quoteGraph.toExport.ReadsBack := by
  have hruns : ((quoteCompiler.compile.run {}).1.map fun k =>
      (((k.link [⟨"s", "\""⟩]).run {}).1.1.freeze.run {}).1) = .ok (.ok quoteGraph) := by cbv
  obtain ⟨k, hcompile, hfreeze⟩ := exists_eq_ok_of_map hruns
  have hbuilt : k.Built := .compile {} hcompile
  exact ⟨k, hcompile, hfreeze, (hbuilt.link {} [⟨"s", "\""⟩]).readsBack_toExport hfreeze⟩

end Progression

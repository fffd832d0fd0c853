import Progression.Placement
import Progression.Proofs.Interning

/-!
Linking, read by name. A record gives its location to the node of its treasure, which is
made if there is none; all other nodes stay as they are. Tables keep to their rules, and a
name that has a symbol but no node goes on being mentioned by some node.
-/

namespace Progression

namespace NamedNode

/-- The node of a treasure that has no rule, before anything is placed. -/
def treasure : NamedNode :=
  ⟨.and, [], [], FlatTable.linkageSource, false⟩

/-- The node with one more placement, unless it is there already. -/
def place (node : NamedNode) (location : String) : NamedNode :=
  if location ∈ node.placements then node
  else { node with placements := node.placements ++ [location] }

def placeAll (node : NamedNode) (locations : List String) : NamedNode :=
  locations.foldl place node

theorem place_eq (node : NamedNode) (location : String) :
    node.place location = { node with placements := (node.place location).placements } := by
  rw [place]
  split <;> rfl

/-- Placing changes nothing but placements. -/
theorem placeAll_eq (locations : List String) (node : NamedNode) :
    node.placeAll locations =
      { node with placements := (node.placeAll locations).placements } := by
  induction locations generalizing node with
  | nil => rfl
  | cons location locations ih =>
      show (node.place location).placeAll locations =
        { node with placements := ((node.place location).placeAll locations).placements }
      rw [ih, place_eq]

@[simp] theorem mem_place_iff {node : NamedNode} {location other : String} :
    other ∈ (node.place location).placements ↔ other ∈ node.placements ∨ other = location := by
  rw [place]
  split
  case isTrue hold =>
      refine ⟨Or.inl, ?_⟩
      rintro (hmem | rfl)
      · exact hmem
      · exact hold
  case isFalse => rw [List.mem_append, List.mem_singleton]

@[simp] theorem mem_placeAll_iff {other : String} (locations : List String) (node : NamedNode) :
    other ∈ (node.placeAll locations).placements ↔
      other ∈ node.placements ∨ other ∈ locations := by
  induction locations generalizing node with
  | nil => simp [placeAll]
  | cons location locations ih =>
      show other ∈ ((node.place location).placeAll locations).placements ↔ _
      rw [ih, mem_place_iff, List.mem_cons, or_assoc]

theorem nodup_place {node : NamedNode} (h : node.placements.Nodup) (location : String) :
    (node.place location).placements.Nodup := by
  rw [place]
  split
  case isTrue => exact h
  case isFalse hnew =>
      show (node.placements ++ [location]).Nodup
      rw [← List.concat_eq_append]
      exact h.concat hnew

theorem nodup_placeAll (locations : List String) {node : NamedNode}
    (h : node.placements.Nodup) : (node.placeAll locations).placements.Nodup := by
  induction locations generalizing node with
  | nil => exact h
  | cons location locations ih => exact ih (nodup_place h location)

theorem prefix_place (node : NamedNode) (location : String) :
    node.placements <+: (node.place location).placements := by
  rw [place]
  split
  · exact List.prefix_refl _
  · exact List.prefix_append _ _

/-- New placements stand behind the old ones. -/
theorem prefix_placeAll (locations : List String) (node : NamedNode) :
    node.placements <+: (node.placeAll locations).placements := by
  induction locations generalizing node with
  | nil => exact List.prefix_refl _
  | cons location locations ih => exact (prefix_place node location).trans (ih _)

end NamedNode

/-- Where the records put a treasure, in their order. -/
def Placement.locations (records : List Placement) (treasure : String) : List String :=
  (records.filter (·.treasure == treasure)).map Placement.location

@[simp]
theorem Placement.mem_locations_iff {records : List Placement} {location treasure : String} :
    location ∈ Placement.locations records treasure ↔ ⟨location, treasure⟩ ∈ records := by
  rw [locations, List.mem_map]
  constructor
  · rintro ⟨record, hrecord, rfl⟩
    obtain ⟨hmem, htreasure⟩ := List.mem_filter.1 hrecord
    obtain rfl := beq_iff_eq.1 htreasure
    exact hmem
  · exact fun hmem => ⟨⟨location, treasure⟩, List.mem_filter.2 ⟨hmem, beq_self_eq_true _⟩, rfl⟩

namespace FlatTable

/-- A name without a node is one of `pending`, or some node mentions it. -/
def Covered (table : FlatTable) (pending : List String) : Prop :=
  ∀ name ∈ table.vocabulary, table.named? name = none →
    name ∈ pending ∨ ∃ other node, table.named? other = some node ∧ name ∈ node.sources

variable {table : FlatTable}

/-! ### One record -/

/-- Both names of a record have symbols before anything is placed. -/
def withRecord (table : FlatTable) (record : Placement) : FlatTable :=
  ((table.intern record.location).1.intern record.treasure).1

def locationOf (table : FlatTable) (record : Placement) : Symbol :=
  (table.intern record.location).2

def treasureOf (table : FlatTable) (record : Placement) : Symbol :=
  ((table.intern record.location).1.intern record.treasure).2

theorem linkRecord_eq (table : FlatTable) (stats : LinkStats) (record : Placement) :
    table.linkRecord stats record =
      (table.withRecord record).place stats (table.locationOf record)
        (table.treasureOf record) := rfl

theorem locationOf_lt (table : FlatTable) (record : Placement) :
    table.locationOf record < (table.withRecord record).symbols.size :=
  Nat.lt_of_lt_of_le (lt_intern _ _)
    (SymbolTable.size_le_of_isPrefix (prefix_vocabulary_intern _ _))

theorem treasureOf_lt (table : FlatTable) (record : Placement) :
    table.treasureOf record < (table.withRecord record).symbols.size :=
  lt_intern _ _

@[simp] theorem name_locationOf (table : FlatTable) (record : Placement) :
    (table.withRecord record).name (table.locationOf record) = record.location :=
  (SymbolTable.name_of_isPrefix (prefix_vocabulary_intern _ _) (lt_intern _ _)).trans
    (name_intern _ _)

@[simp] theorem name_treasureOf (table : FlatTable) (record : Placement) :
    (table.withRecord record).name (table.treasureOf record) = record.treasure :=
  name_intern _ _

theorem WellFormed.withRecord (h : table.WellFormed) (record : Placement) :
    (table.withRecord record).WellFormed :=
  (h.intern _).intern _

theorem named?_withRecord (h : table.WellFormed) (record : Placement) :
    (table.withRecord record).named? = table.named? :=
  (named?_intern (h.intern _) _).trans (named?_intern h _)

/-- Placing leaves the table alone, or adds a location to a node, or makes a node. -/
theorem place_cases (table : FlatTable) (stats : LinkStats) (location treasure : Symbol) :
    (∃ node, table.node? treasure = some node ∧ location ∈ node.placements ∧
      (table.place stats location treasure).1 = table) ∨
    (∃ node, table.node? treasure = some node ∧ location ∉ node.placements ∧
      (table.place stats location treasure).1 =
        table.define treasure { node with placements := node.placements ++ [location] }) ∨
    (table.node? treasure = none ∧
      (table.place stats location treasure).1 =
        table.define treasure ⟨.and, [], [location], linkageSource, false⟩) := by
  unfold place
  cases hnode : table.node? treasure with
  | none => exact Or.inr (Or.inr ⟨rfl, rfl⟩)
  | some node =>
      by_cases hold : location ∈ node.placements
      · exact Or.inl ⟨node, rfl, hold, by simp only [if_pos hold]⟩
      · exact Or.inr (Or.inl ⟨node, rfl, hold, by simp only [if_neg hold]⟩)

@[simp] theorem symbols_place (table : FlatTable) (stats : LinkStats) (location treasure : Symbol) :
    (table.place stats location treasure).1.symbols = table.symbols := by
  rcases place_cases table stats location treasure with ⟨_, _, _, heq⟩ | ⟨_, _, _, heq⟩ | ⟨_, heq⟩
  · rw [heq]
  · rw [heq]
    rfl
  · rw [heq]
    rfl

theorem WellFormed.place (h : table.WellFormed) (stats : LinkStats) {location treasure : Symbol}
    (hlocation : location < table.symbols.size) (htreasure : treasure < table.symbols.size) :
    (table.place stats location treasure).1.WellFormed := by
  rcases place_cases table stats location treasure with
    ⟨_, _, _, heq⟩ | ⟨node, hnode, hnew, heq⟩ | ⟨_, heq⟩
  · rw [heq]
    exact h
  · rw [heq]
    apply h.define htreasure
    · intro p hp
      rw [FlatNode.sources, ← List.append_assoc, List.mem_append, List.mem_singleton] at hp
      rcases hp with hp | rfl
      · exact h.sources_lt treasure node hnode p hp
      · exact hlocation
    · show (node.placements ++ [location]).Nodup
      rw [← List.concat_eq_append]
      exact (h.placements_nodup treasure node hnode).concat hnew
  · have hsource : ∀ p ∈ [location], p < table.symbols.size := by simpa using hlocation
    rw [heq]
    exact h.define htreasure hsource (List.nodup_singleton _)

/-- Symbols are in the placements exactly if their names are. -/
theorem WellFormed.name_mem_placements_iff (h : table.WellFormed) {s location : Symbol}
    {node : FlatNode} (hnode : table.node? s = some node)
    (hlocation : location < table.symbols.size) :
    table.name location ∈ (table.toNamed node).placements ↔ location ∈ node.placements :=
  h.name_mem_map_iff (fun p hp => h.sources_lt s node hnode p (List.mem_append_right _ hp))
    hlocation

/-- The treasure's node gets the location. -/
theorem named?_place (h : table.WellFormed) (stats : LinkStats) {location treasure : Symbol}
    (hlocation : location < table.symbols.size) (htreasure : treasure < table.symbols.size)
    (name : String) :
    (table.place stats location treasure).1.named? name =
      if name = table.name treasure then
        some (((table.named? name).getD NamedNode.treasure).place (table.name location))
      else table.named? name := by
  have hnamed := h.named?_name htreasure
  rcases place_cases table stats location treasure with
    ⟨node, hnode, hold, heq⟩ | ⟨node, hnode, hnew, heq⟩ | ⟨hnode, heq⟩
  · have hin := (h.name_mem_placements_iff hnode hlocation).2 hold
    rw [heq]
    split
    case isTrue hname =>
        rw [hname, hnamed, hnode, Option.map_some, Option.getD_some, NamedNode.place, if_pos hin]
    case isFalse => rfl
  · have hout := fun hin => hnew ((h.name_mem_placements_iff hnode hlocation).1 hin)
    rw [heq, named?_define h htreasure]
    split
    case isTrue hname =>
        rw [hname, hnamed, hnode, Option.map_some, Option.getD_some, NamedNode.place, if_neg hout]
        simp [toNamed]
    case isFalse => rfl
  · rw [heq, named?_define h htreasure]
    split
    case isTrue hname =>
        rw [hname, hnamed, hnode]
        rfl
    case isFalse => rfl

theorem WellFormed.linkRecord (h : table.WellFormed) (stats : LinkStats)
    (record : Placement) : (table.linkRecord stats record).1.WellFormed := by
  rw [linkRecord_eq]
  exact (h.withRecord record).place stats (table.locationOf_lt record)
    (table.treasureOf_lt record)

@[simp] theorem vocabulary_linkRecord (table : FlatTable) (stats : LinkStats) (record : Placement) :
    (table.linkRecord stats record).1.vocabulary = (table.withRecord record).vocabulary := by
  rw [linkRecord_eq, vocabulary, symbols_place]
  rfl

/-- A record changes the node of its treasure. -/
theorem named?_linkRecord (h : table.WellFormed) (stats : LinkStats) (record : Placement)
    (name : String) :
    (table.linkRecord stats record).1.named? name =
      if name = record.treasure then
        some (((table.named? name).getD NamedNode.treasure).place record.location)
      else table.named? name := by
  rw [linkRecord_eq, named?_place (h.withRecord record) stats (table.locationOf_lt record)
    (table.treasureOf_lt record), name_treasureOf, name_locationOf, named?_withRecord h]

theorem Covered.linkRecord (hcovered : table.Covered []) (h : table.WellFormed)
    (stats : LinkStats) (record : Placement) :
    (table.linkRecord stats record).1.Covered [] := by
  intro name hmem hnone
  rw [named?_linkRecord h] at hnone
  split at hnone
  case isTrue => contradiction
  case isFalse hother =>
      -- The location is covered by the treasure, every other name as before.
      rw [vocabulary_linkRecord, withRecord, mem_vocabulary_intern,
        mem_vocabulary_intern] at hmem
      rcases hmem with rfl | rfl | hold
      · exact absurd rfl hother
      · refine Or.inr ⟨record.treasure, _, by rw [named?_linkRecord h, if_pos rfl], ?_⟩
        exact List.mem_append_right _ (NamedNode.mem_place_iff.2 (Or.inr rfl))
      · rcases hcovered name hold hnone with hpending | ⟨other, node, hnode, hmention⟩
        · contradiction
        · right
          by_cases heq : other = record.treasure
          · refine ⟨other, _, by rw [named?_linkRecord h, if_pos heq], ?_⟩
            rw [hnode, Option.getD_some, NamedNode.sources, List.mem_append,
              NamedNode.mem_place_iff]
            rw [NamedNode.sources, List.mem_append] at hmention
            rw [NamedNode.place_eq]
            exact hmention.imp_right Or.inl
          · exact ⟨other, node, by rw [named?_linkRecord h, if_neg heq, hnode], hmention⟩

/-! ### All records -/

def linkNext (state : FlatTable × LinkStats) (record : Placement) : FlatTable × LinkStats :=
  state.1.linkRecord state.2 record

theorem link_eq (table : FlatTable) (records : List Placement) :
    table.link records = records.foldl linkNext (table, {}) := rfl

/-- What holds of a table and is kept by every record holds after linking. -/
theorem link_induction {P : FlatTable → Prop}
    (hstep : ∀ (t : FlatTable) (stats : LinkStats) (record : Placement),
      P t → P (t.linkRecord stats record).1)
    (records : List Placement) (h : P table) : P (table.link records).1 := by
  have hfold : ∀ (records : List Placement) (state : FlatTable × LinkStats), P state.1 →
      P (records.foldl linkNext state).1 := by
    intro records
    induction records with
    | nil => exact fun state hstate => hstate
    | cons record records ih =>
        exact fun state hstate => ih _ (hstep state.1 state.2 record hstate)
  rw [link_eq]
  exact hfold records (table, {}) h

theorem WellFormed.link (h : table.WellFormed) (records : List Placement) :
    (table.link records).1.WellFormed :=
  link_induction (fun _ stats record ht => ht.linkRecord stats record) records h

/-- What every record keeps on well-formed tables holds after linking. -/
theorem WellFormed.link_induction {P : FlatTable → Prop} (h : table.WellFormed)
    (hstep : ∀ (t : FlatTable) (stats : LinkStats) (record : Placement), t.WellFormed →
      P t → P (t.linkRecord stats record).1)
    (records : List Placement) (hP : P table) : P (table.link records).1 := by
  have hboth : (table.link records).1.WellFormed ∧ P (table.link records).1 :=
    FlatTable.link_induction (P := fun t => t.WellFormed ∧ P t)
      (fun t stats record ht =>
        ⟨ht.1.linkRecord stats record, hstep t stats record ht.1 ht.2⟩)
      records ⟨h, hP⟩
  exact hboth.2

theorem Covered.link (hcovered : table.Covered []) (h : table.WellFormed)
    (records : List Placement) : (table.link records).1.Covered [] :=
  h.link_induction (P := fun t => t.Covered [])
    (fun _ stats record ht hc => hc.linkRecord ht stats record) records hcovered

theorem locations_cons (record : Placement) (records : List Placement) (name : String) :
    Placement.locations (record :: records) name =
      if name = record.treasure then record.location :: Placement.locations records name
      else Placement.locations records name := by
  by_cases hname : name = record.treasure
  · simp [Placement.locations, hname]
  · simp [Placement.locations, hname, Ne.symm hname]

/-- Linking gives every treasure its locations and changes no other node. -/
theorem named?_link (h : table.WellFormed) (records : List Placement) (name : String) :
    (table.link records).1.named? name =
      if Placement.locations records name = [] then table.named? name
      else some (((table.named? name).getD NamedNode.treasure).placeAll
        (Placement.locations records name)) := by
  have hfold : ∀ (records : List Placement) (state : FlatTable × LinkStats),
      state.1.WellFormed →
      (records.foldl linkNext state).1.named? name =
      if Placement.locations records name = [] then state.1.named? name
      else some (((state.1.named? name).getD NamedNode.treasure).placeAll
        (Placement.locations records name)) := by
    intro records
    induction records with
    | nil => exact fun state _ => rfl
    | cons record records ih =>
        intro state hstate
        refine (ih _ (hstate.linkRecord state.2 record)).trans ?_
        -- The first record has placed its location before the others are looked at.
        rw [named?_linkRecord hstate, locations_cons]
        by_cases hname : name = record.treasure
        · rw [if_pos hname, if_pos hname, if_neg (List.cons_ne_nil _ _)]
          split
          case isTrue hnil =>
              rw [hnil]
              rfl
          case isFalse => rfl
        · rw [if_neg hname, if_neg hname]
  rw [link_eq]
  exact hfold records (table, {}) h

/-- A node that is there keeps everything and gets its locations. -/
theorem named?_link_of_some (h : table.WellFormed) (records : List Placement) {name : String}
    {node : NamedNode} (hnode : table.named? name = some node) :
    (table.link records).1.named? name =
      some (node.placeAll (Placement.locations records name)) := by
  rw [named?_link h, hnode, Option.getD_some]
  split
  case isTrue hnil =>
      rw [hnil]
      rfl
  case isFalse => rfl

/-- Linking changes no test that placements do not matter to and that the nodes of treasures
without a rule do not pass. -/
theorem any_link (h : table.WellFormed) {test : NamedNode → Bool}
    (hplaced : ∀ node locations, test (NamedNode.placeAll node locations) = test node)
    (htreasure : test .treasure = false) (records : List Placement) (name : String) :
    ((table.link records).1.named? name).any test = (table.named? name).any test := by
  rw [named?_link h]
  split
  · rfl
  · rw [Option.any_some, hplaced]
    cases table.named? name with
    | none => exact htreasure
    | some node => rfl

end FlatTable

end Progression

import Progression.Proofs.Flattening

/-!
What linking reports. Every record makes a node, adds a place to a node, or changes nothing,
and is counted as what it does. So the counts are the differences between the nodes and the
placements of a table before and after linking, and they do not depend on how it went on.
-/

namespace Progression.FlatTable

variable {table : FlatTable}

/-! ### Names and edges -/

/-- Every treasure with every place where its item has been put. -/
def edges (table : FlatTable) : List (String × String) :=
  table.entries.flatMap fun entry => entry.2.placements.map (entry.1, ·)

theorem WellFormed.mem_edges_iff (h : table.WellFormed) {name location : String} :
    (name, location) ∈ table.edges ↔
      ∃ node, table.named? name = some node ∧ location ∈ node.placements := by
  rw [edges, List.mem_flatMap]
  constructor
  · rintro ⟨⟨_, node⟩, hmem, hplaced⟩
    obtain ⟨l, hl, heq⟩ := List.mem_map.1 hplaced
    obtain ⟨rfl, rfl⟩ := Prod.mk.inj heq
    exact ⟨node, h.mem_entries_iff.1 hmem, hl⟩
  · rintro ⟨node, hnode, hl⟩
    exact ⟨(name, node), h.mem_entries_iff.2 hnode, List.mem_map_of_mem hl⟩

theorem WellFormed.nodup_placements (h : table.WellFormed) {name : String} {node : NamedNode}
    (hnode : table.named? name = some node) : node.placements.Nodup := by
  obtain ⟨s, n, hn, -, rfl⟩ := h.named?_eq_some_iff.1 hnode
  have hlt : ∀ p ∈ n.placements, p < table.symbols.size :=
    fun p hp => h.sources_lt s n hn p (List.mem_append_right _ hp)
  refine List.Nodup.map_on (fun p hp q hq heq => ?_) (h.placements_nodup s n hn)
  exact SymbolTable.name_inj h.vocabulary_nodup (hlt p hp) (hlt q hq) heq

theorem WellFormed.nodup_edges (h : table.WellFormed) : table.edges.Nodup := by
  rw [edges, List.nodup_flatMap]
  constructor
  · rintro ⟨name, node⟩ hmem
    exact (h.nodup_placements (h.mem_entries_iff.1 hmem)).map fun _ _ heq => (Prod.mk.inj heq).2
  · refine (List.pairwise_map.1 h.nodup_entries).imp ?_
    rintro ⟨name, node⟩ ⟨name', node'⟩ hne edge hedge hedge'
    obtain ⟨_, -, rfl⟩ := List.mem_map.1 hedge
    obtain ⟨_, -, heq⟩ := List.mem_map.1 hedge'
    exact hne (Prod.mk.inj heq).1.symm

/-! ### One record -/

/-- A list that gets one member is longer only if the member is new. -/
theorem length_of_mem_iff {α : Type} {l l' : List α} {a : α} (h : l.Nodup) (h' : l'.Nodup)
    (hmem : ∀ x, x ∈ l' ↔ x = a ∨ x ∈ l) :
    (a ∈ l → l'.length = l.length) ∧ (a ∉ l → l'.length = l.length + 1) := by
  constructor
  · intro ha
    refine ((List.perm_ext_iff_of_nodup h' h).2 fun x => (hmem x).trans ?_).length_eq
    exact or_iff_right_of_imp fun hx => hx ▸ ha
  · intro ha
    rw [← List.length_cons (a := a)]
    refine ((List.perm_ext_iff_of_nodup h' (List.nodup_cons.2 ⟨ha, h⟩)).2 fun x => ?_).length_eq
    rw [hmem, List.mem_cons]

theorem length_names_linkRecord (h : table.WellFormed) (stats : LinkStats) (record : Placement) :
    (record.treasure ∈ table.names →
      (table.linkRecord stats record).1.names.length = table.names.length) ∧
    (record.treasure ∉ table.names →
      (table.linkRecord stats record).1.names.length = table.names.length + 1) := by
  have h' := h.linkRecord stats record
  refine length_of_mem_iff h.nodup_entries h'.nodup_entries fun name => ?_
  show name ∈ (table.linkRecord stats record).1.names ↔ name = record.treasure ∨ name ∈ table.names
  rw [h.mem_names_iff, h'.mem_names_iff, named?_linkRecord h]
  by_cases hname : name = record.treasure
  · simp [hname]
  · simp [hname]

theorem length_edges_linkRecord (h : table.WellFormed) (stats : LinkStats) (record : Placement) :
    ((record.treasure, record.location) ∈ table.edges →
      (table.linkRecord stats record).1.edges.length = table.edges.length) ∧
    ((record.treasure, record.location) ∉ table.edges →
      (table.linkRecord stats record).1.edges.length = table.edges.length + 1) := by
  have h' := h.linkRecord stats record
  refine length_of_mem_iff h.nodup_edges h'.nodup_edges ?_
  rintro ⟨name, l⟩
  rw [h.mem_edges_iff, h'.mem_edges_iff, named?_linkRecord h, Prod.mk.injEq]
  by_cases hname : name = record.treasure
  · subst hname
    cases hnode : table.named? record.treasure with
    | none => simp [NamedNode.treasure]
    | some node => simp [or_comm]
  · simp [hname]

/-- A record is counted as what it does. -/
theorem linkRecord_snd_cases (h : table.WellFormed) (stats : LinkStats) (record : Placement) :
    (record.treasure ∈ table.names ∧ (record.treasure, record.location) ∈ table.edges ∧
      (table.linkRecord stats record).2 = { stats with unchanged := stats.unchanged + 1 }) ∨
    (record.treasure ∈ table.names ∧ (record.treasure, record.location) ∉ table.edges ∧
      (table.linkRecord stats record).2 = { stats with edgesAdded := stats.edgesAdded + 1 }) ∨
    (record.treasure ∉ table.names ∧ (record.treasure, record.location) ∉ table.edges ∧
      (table.linkRecord stats record).2 =
        { stats with nodesCreated := stats.nodesCreated + 1 }) := by
  have hfull := h.withRecord record
  have hnamed := hfull.named?_name (table.treasureOf_lt record)
  rw [name_treasureOf, named?_withRecord h] at hnamed
  rw [linkRecord_eq, place, h.mem_names_iff, h.mem_edges_iff, hnamed]
  cases hnode : (table.withRecord record).node? (table.treasureOf record) with
  | none => simp
  | some node =>
      have hplaced := hfull.name_mem_placements_iff hnode (table.locationOf_lt record)
      rw [name_locationOf] at hplaced
      by_cases hold : table.locationOf record ∈ node.placements
      · simp [hold, hplaced]
      · simp [hold, hplaced]

/-! ### All records -/

/-- The counts say how a table came from another one by linking so many records. -/
structure Accounts (table : FlatTable) (state : FlatTable × LinkStats) (count : Nat) : Prop where
  names_length : state.1.names.length = table.names.length + state.2.nodesCreated
  edges_length :
    state.1.edges.length = table.edges.length + state.2.edgesAdded + state.2.nodesCreated
  records : state.2.edgesAdded + state.2.nodesCreated + state.2.unchanged = count

theorem Accounts.linkNext {state : FlatTable × LinkStats} {count : Nat}
    (haccounts : Accounts table state count) (h : state.1.WellFormed) (record : Placement) :
    Accounts table (linkNext state record) (count + 1) := by
  obtain ⟨hnames, hedges, hrecords⟩ := haccounts
  have hnames' := length_names_linkRecord h state.2 record
  have hedges' := length_edges_linkRecord h state.2 record
  rcases linkRecord_snd_cases h state.2 record with
    ⟨hname, hedge, hstats⟩ | ⟨hname, hedge, hstats⟩ | ⟨hname, hedge, hstats⟩
  · have hnames'' := hnames'.1 hname
    have hedges'' := hedges'.1 hedge
    constructor <;> simp only [FlatTable.linkNext, hnames'', hedges'', hstats] <;> omega
  · have hnames'' := hnames'.1 hname
    have hedges'' := hedges'.2 hedge
    constructor <;> simp only [FlatTable.linkNext, hnames'', hedges'', hstats] <;> omega
  · have hnames'' := hnames'.2 hname
    have hedges'' := hedges'.2 hedge
    constructor <;> simp only [FlatTable.linkNext, hnames'', hedges'', hstats] <;> omega

/-- The counts can be read off the tables. -/
theorem Accounts.stats_eq {state state' : FlatTable × LinkStats} {count : Nat}
    (haccounts : Accounts table state count) (haccounts' : Accounts table state' count)
    (hnames : state.1.names.length = state'.1.names.length)
    (hedges : state.1.edges.length = state'.1.edges.length) : state.2 = state'.2 := by
  obtain ⟨after, edgesAdded, nodesCreated, unchanged⟩ := state
  obtain ⟨after', edgesAdded', nodesCreated', unchanged'⟩ := state'
  obtain ⟨hn, he, hr⟩ := haccounts
  obtain ⟨hn', he', hr'⟩ := haccounts'
  dsimp only at *
  rw [LinkStats.mk.injEq]
  omega

theorem accounts_link (h : table.WellFormed) (records : List Placement) :
    Accounts table (table.link records) records.length := by
  have hfold : ∀ (records : List Placement) (state : FlatTable × LinkStats) (count : Nat),
      state.1.WellFormed → Accounts table state count →
        Accounts table (records.foldl linkNext state) (count + records.length) := by
    intro records
    induction records with
    | nil => exact fun state count _ haccounts => haccounts
    | cons record records ih =>
        intro state count hstate haccounts
        have hrest := ih _ _ (hstate.linkRecord state.2 record) (haccounts.linkNext hstate record)
        rw [List.length_cons, Nat.add_comm records.length, ← Nat.add_assoc]
        exact hrest
  have hstart : Accounts table (table, {}) 0 := ⟨rfl, rfl, rfl⟩
  rw [link_eq, ← Nat.zero_add records.length]
  exact hfold records (table, {}) 0 h hstart

end Progression.FlatTable

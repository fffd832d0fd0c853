import Progression.Proofs.Balance
import Progression.Proofs.Building

/-!
Linking again and again. Links only add: symbols stay with their names, and nodes keep what
they have and get placements behind the old ones. So a record that was applied once is found
applied later, whatever was linked in between. Main statement: over any number of links nothing
is lost, and applying old records changes nothing at all.
-/

namespace Progression

namespace FlatTable

variable {table : FlatTable} {record : Placement}

/-! ### Tables that come later -/

/-- Symbols and nodes of a table are found in another one, where nodes may have more
placements behind theirs. -/
structure Extends (table later : FlatTable) : Prop where
  vocabulary : table.vocabulary <+: later.vocabulary
  node? : ∀ s node, table.node? s = some node →
    ∃ more, later.node? s = some { node with placements := node.placements ++ more }

theorem Extends.refl (table : FlatTable) : table.Extends table where
  vocabulary := List.prefix_refl _
  node? _ node hnode := ⟨[], by rw [hnode, List.append_nil]⟩

theorem Extends.trans {later last : FlatTable} (h : table.Extends later)
    (h' : later.Extends last) : table.Extends last where
  vocabulary := h.vocabulary.trans h'.vocabulary
  node? s node hnode := by
    obtain ⟨more, hmore⟩ := h.node? s node hnode
    obtain ⟨more', hmore'⟩ := h'.node? s _ hmore
    exact ⟨more ++ more', by rw [hmore', List.append_assoc]⟩

/-- A name keeps its symbol. -/
theorem Extends.symbol? {later : FlatTable} (hextends : table.Extends later)
    (h : table.WellFormed) (h' : later.WellFormed) {name : String} {s : Symbol}
    (hs : table.symbol? name = some s) : later.symbol? name = some s := by
  obtain ⟨hlt, hname⟩ := h.symbol?_eq_some_iff.1 hs
  refine h'.symbol?_eq_some_iff.2 ⟨?_, ?_⟩
  · exact Nat.lt_of_lt_of_le hlt (SymbolTable.size_le_of_isPrefix hextends.vocabulary)
  · rw [← hname]
    exact SymbolTable.name_of_isPrefix hextends.vocabulary hlt

theorem extends_intern (table : FlatTable) (name : String) :
    table.Extends (table.intern name).1 where
  vocabulary := prefix_vocabulary_intern table name
  node? s node hnode := ⟨[], by rw [node?_intern, hnode, List.append_nil]⟩

theorem extends_place (h : table.WellFormed) (stats : LinkStats) (location : Symbol)
    {treasure : Symbol} (htreasure : treasure < table.symbols.size) :
    table.Extends (table.place stats location treasure).1 := by
  rcases place_cases table stats location treasure with
    ⟨_, _, _, heq⟩ | ⟨node, hnode, _, heq⟩ | ⟨hnone, heq⟩
  · rw [heq]
    exact .refl table
  · rw [heq]
    refine ⟨List.prefix_refl _, fun s n hn => ?_⟩
    rw [node?_define h htreasure]
    split
    case isTrue hs =>
        obtain rfl : node = n := Option.some.inj (hnode.symm.trans (hs ▸ hn))
        exact ⟨[location], rfl⟩
    case isFalse => exact ⟨[], by rw [hn, List.append_nil]⟩
  · rw [heq]
    refine ⟨List.prefix_refl _, fun s n hn => ?_⟩
    have hs : s ≠ treasure := by
      rintro rfl
      rw [hnone] at hn
      contradiction
    rw [node?_define h htreasure, if_neg hs]
    exact ⟨[], by rw [hn, List.append_nil]⟩

/-- One record extends the table. -/
theorem extends_linkRecord (h : table.WellFormed) (stats : LinkStats) (record : Placement) :
    table.Extends (table.linkRecord stats record).1 := by
  rw [linkRecord_eq]
  have hplace := extends_place (h.withRecord record) stats (table.locationOf record)
    (table.treasureOf_lt record)
  exact ((extends_intern _ _).trans (extends_intern _ _)).trans hplace

theorem extends_link (h : table.WellFormed) (records : List Placement) :
    table.Extends (table.link records).1 :=
  h.link_induction (P := table.Extends)
    (fun _ stats record ht hext => hext.trans (extends_linkRecord ht stats record))
    records (.refl table)

/-! ### Link calls in turn -/

/-- The table after several calls that link records. -/
def linkAll (table : FlatTable) (calls : List (List Placement)) : FlatTable :=
  calls.foldl (fun t records => (t.link records).1) table

@[simp] theorem linkAll_append (table : FlatTable) (calls more : List (List Placement)) :
    table.linkAll (calls ++ more) = (table.linkAll calls).linkAll more :=
  List.foldl_append

/-- What every call keeps on well-formed tables holds after all calls. -/
theorem WellFormed.linkAll_induction {P : FlatTable → Prop} (h : table.WellFormed)
    (hstep : ∀ (t : FlatTable) (records : List Placement), t.WellFormed → P t →
      P (t.link records).1)
    (calls : List (List Placement)) (hP : P table) : P (table.linkAll calls) := by
  induction calls generalizing table with
  | nil => exact hP
  | cons records calls ih => exact ih (h.link records) (hstep table records h hP)

theorem WellFormed.linkAll (h : table.WellFormed) (calls : List (List Placement)) :
    (table.linkAll calls).WellFormed :=
  h.linkAll_induction (fun _ records ht _ => ht.link records) calls h

theorem extends_linkAll (h : table.WellFormed) (calls : List (List Placement)) :
    table.Extends (table.linkAll calls) :=
  h.linkAll_induction (fun _ records ht hext => hext.trans (extends_link ht records)) calls
    (.refl table)

theorem any_linkAll (h : table.WellFormed) {test : NamedNode → Bool}
    (hplaced : ∀ node locations, test (NamedNode.placeAll node locations) = test node)
    (htreasure : test .treasure = false) (calls : List (List Placement)) (name : String) :
    ((table.linkAll calls).named? name).any test = (table.named? name).any test :=
  h.linkAll_induction (P := fun t => (t.named? name).any test = (table.named? name).any test)
    (fun _ records ht hP => (any_link ht hplaced htreasure records name).trans hP) calls rfl

/-! ### Records that were applied -/

/-- Linking adds the edges of the records. -/
theorem mem_edges_link_iff (h : table.WellFormed) (records : List Placement) :
    (record.treasure, record.location) ∈ (table.link records).1.edges ↔
      (record.treasure, record.location) ∈ table.edges ∨ record ∈ records := by
  rw [h.mem_edges_iff, (h.link records).mem_edges_iff, named?_link h,
    ← Placement.mem_locations_iff]
  split
  case isTrue hnil => simp [hnil]
  case isFalse hsome =>
      cases hnode : table.named? record.treasure with
      | none => simp [NamedNode.treasure]
      | some node => simp

/-- Both names of an edge have symbols. -/
theorem withRecord_of_mem_edges (h : table.WellFormed)
    (hedge : (record.treasure, record.location) ∈ table.edges) :
    table.withRecord record = table := by
  obtain ⟨node, hnode, hlocation⟩ := h.mem_edges_iff.1 hedge
  obtain ⟨s, n, hn, hname, rfl⟩ := h.named?_eq_some_iff.1 hnode
  have htreasure : record.treasure ∈ table.vocabulary :=
    hname ▸ SymbolTable.name_mem (h.lt_of_node? hn)
  have hlocation' : record.location ∈ table.vocabulary := by
    obtain ⟨p, hp, hname'⟩ := List.mem_map.1 hlocation
    rw [← hname']
    exact SymbolTable.name_mem (h.sources_lt s n hn p (List.mem_append_right _ hp))
  rw [withRecord, intern_of_mem h hlocation', intern_of_mem h htreasure]

/-- A record that was applied changes nothing. -/
theorem linkRecord_of_mem_edges (h : table.WellFormed) (stats : LinkStats)
    (hedge : (record.treasure, record.location) ∈ table.edges) :
    table.linkRecord stats record =
      (table, { stats with unchanged := stats.unchanged + 1 }) := by
  have hfull := h.withRecord record
  have hnamed := hfull.named?_name (table.treasureOf_lt record)
  obtain ⟨node, hnode, hlocation⟩ := h.mem_edges_iff.1 hedge
  rw [name_treasureOf, named?_withRecord h, hnode] at hnamed
  obtain ⟨n, hn, rfl⟩ := Option.map_eq_some_iff.1 hnamed.symm
  have hplaced : table.locationOf record ∈ n.placements := by
    rw [← hfull.name_mem_placements_iff hn (table.locationOf_lt record), name_locationOf]
    exact hlocation
  rw [linkRecord_eq, place, hn]
  simp only [if_pos hplaced, withRecord_of_mem_edges h hedge]

/-- Records that were applied change nothing, in any number and order. -/
theorem link_of_mem_edges (h : table.WellFormed) {records : List Placement}
    (hedges : ∀ record ∈ records, (record.treasure, record.location) ∈ table.edges) :
    table.link records = (table, ⟨0, 0, records.length⟩) := by
  have hfold : ∀ (records : List Placement) (stats : LinkStats),
      (∀ record ∈ records, (record.treasure, record.location) ∈ table.edges) →
        records.foldl linkNext (table, stats) =
          (table, { stats with unchanged := stats.unchanged + records.length }) := by
    intro records
    induction records with
    | nil => exact fun stats _ => rfl
    | cons record records ih =>
        intro stats hall
        have hfirst := linkRecord_of_mem_edges h stats (hall record List.mem_cons_self)
        rw [List.foldl_cons, linkNext, hfirst,
          ih _ fun other hother => hall other (List.mem_cons_of_mem record hother)]
        simp only [List.length_cons, Nat.add_assoc, Nat.add_comm 1]
  rw [link_eq, hfold records {} hedges, Nat.zero_add]

end FlatTable

/-! ### Link calls to a compiler -/

namespace Compiled

variable {k : Compiled} {journal : Journal}

/-- Link calls in turn, with what each of them has counted. -/
def linkAll (k : Compiled) : List (List Placement) → StateM Journal (Compiled × List LinkStats)
  | [] => return (k, [])
  | records :: calls => do
    let (k, stats) ← k.link records
    let (k, later) ← k.linkAll calls
    return (k, stats :: later)

@[simp] theorem link_run (k : Compiled) (records : List Placement) (journal : Journal) :
    ((k.link records).run journal).1 =
      ({ k with table := (k.table.link records).1 }, (k.table.link records).2) := rfl

theorem linkAll_cons (k : Compiled) (records : List Placement) (calls : List (List Placement))
    (journal : Journal) :
    ((k.linkAll (records :: calls)).run journal).1.1 =
      ((((k.link records).run journal).1.1.linkAll calls).run
        ((k.link records).run journal).2).1.1 := rfl

@[simp] theorem linkAll_table (calls : List (List Placement)) (k : Compiled) (journal : Journal) :
    ((k.linkAll calls).run journal).1.1.table = k.table.linkAll calls := by
  induction calls generalizing k journal with
  | nil => rfl
  | cons records calls ih =>
      rw [linkAll_cons, ih]
      rfl

theorem Built.linkAll (calls : List (List Placement)) (h : k.Built) (journal : Journal) :
    ((k.linkAll calls).run journal).1.1.Built := by
  induction calls generalizing k journal with
  | nil => exact h
  | cons records calls ih =>
      rw [linkAll_cons]
      exact ih (.link journal records h) _

/-- Link calls extend the table, and have the edges of all their records. -/
theorem Built.extends_linkAll (calls : List (List Placement)) (h : k.Built) (journal : Journal) :
    k.table.Extends ((k.linkAll calls).run journal).1.1.table := by
  rw [linkAll_table]
  exact FlatTable.extends_linkAll h.wellFormed calls

theorem Built.mem_edges_linkAll_iff {record : Placement} (calls : List (List Placement))
    (h : k.Built) (journal : Journal) :
    (record.treasure, record.location) ∈ ((k.linkAll calls).run journal).1.1.table.edges ↔
      (record.treasure, record.location) ∈ k.table.edges ∨ ∃ call ∈ calls, record ∈ call := by
  induction calls generalizing k journal with
  | nil =>
      show (record.treasure, record.location) ∈ k.table.edges ↔ _
      simp
  | cons records calls ih =>
      rw [linkAll_cons, ih (.link journal records h)]
      show (record.treasure, record.location) ∈ (k.table.link records).1.edges ∨ _ ↔ _
      rw [FlatTable.mem_edges_link_iff h.wellFormed, or_assoc]
      simp

/-- Links only add, and never the same twice: symbols and nodes stay what they are but for new
placements behind the old ones, no node has a placement twice, and records that some call has
applied leave everything as it is. -/
theorem Built.linkAll_keeps (h : k.Built) (calls : List (List Placement)) (journal : Journal) :
    ∃ later stats, ((k.linkAll calls).run journal).1 = (later, stats) ∧
      (∀ name s, k.table.symbol? name = some s → later.table.symbol? name = some s) ∧
      (∀ s node, k.table.node? s = some node → ∃ more,
        later.table.node? s = some { node with placements := node.placements ++ more }) ∧
      (∀ s node, later.table.node? s = some node → node.placements.Nodup) ∧
      ∀ records journal', (∀ record ∈ records, ∃ call ∈ calls, record ∈ call) →
        ((later.link records).run journal').1 = (later, ⟨0, 0, records.length⟩) := by
  have hlater := h.linkAll calls journal
  have hextends := h.extends_linkAll calls journal
  refine ⟨_, _, rfl, ?_, hextends.node?, hlater.wellFormed.placements_nodup, ?_⟩
  · exact fun name s => hextends.symbol? h.wellFormed hlater.wellFormed
  · intro records journal' happlied
    have hlink := FlatTable.link_of_mem_edges hlater.wellFormed fun record hrecord =>
      (h.mem_edges_linkAll_iff calls journal).2 (Or.inr (happlied record hrecord))
    rw [link_run, hlink]

end Compiled

/-- Once the coin lies behind the key and the key in the slot, both records are old. -/
theorem linkAll_keeps_coin :
    ∃ k later stats, (doorCompiler.compile.run {}).1 = .ok k ∧
      ((k.linkAll [[⟨"s", "k"⟩], [⟨"k", "coin"⟩, ⟨"a", "k"⟩]]).run {}).1 = (later, stats) ∧
      stats = [⟨1, 0, 0⟩, ⟨1, 1, 0⟩] ∧
      k.table.symbol? "k" = some 2 ∧ later.table.symbol? "k" = some 2 ∧
      k.table.node? 2 = some ⟨.or, [0, 0], [], "t", false⟩ ∧
      (∃ more, later.table.node? 2 = some ⟨.or, [0, 0], more, "t", false⟩) ∧
      ((later.link [⟨"k", "coin"⟩, ⟨"s", "k"⟩, ⟨"k", "coin"⟩]).run {}).1 =
        (later, ⟨0, 0, 3⟩) := by
  have hruns : ((doorCompiler.compile.run {}).1.map fun k =>
      (((k.linkAll [[⟨"s", "k"⟩], [⟨"k", "coin"⟩, ⟨"a", "k"⟩]]).run {}).1.2,
        k.table.symbol? "k", k.table.node? 2)) =
      .ok ([⟨1, 0, 0⟩, ⟨1, 1, 0⟩], some 2, some ⟨.or, [0, 0], [], "t", false⟩) := by cbv
  obtain ⟨k, hcompile, heq⟩ := exists_eq_ok_of_map hruns
  obtain ⟨hstats, hrest⟩ := Prod.mk.inj heq
  obtain ⟨hsymbol, hnode⟩ := Prod.mk.inj hrest
  obtain ⟨later, stats, hrun, hsymbols, hnodes, -, hagain⟩ := Compiled.Built.linkAll_keeps
    (.compile {} hcompile) [[⟨"s", "k"⟩], [⟨"k", "coin"⟩, ⟨"a", "k"⟩]] {}
  rw [hrun] at hstats
  refine ⟨k, later, stats, hcompile, hrun, hstats, hsymbol, hsymbols _ _ hsymbol, hnode, ?_, ?_⟩
  · obtain ⟨more, hmore⟩ := hnodes _ _ hnode
    exact ⟨_, hmore⟩
  · exact hagain _ {} (by simp)

end Progression

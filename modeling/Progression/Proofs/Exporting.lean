import Progression.Proofs.Defects
import Progression.Proofs.Relinking

/-!
Exports before and after freezing. A table is exported by its symbols, a graph by its node ids,
each with its own idea of what an item is. Main statement: both exports list every node once,
and they are the same; the items among them are the root rules of tables of items, whatever was
linked in between.
-/

namespace Progression

namespace NamedNode

def exported (node : NamedNode) : ExportedNode :=
  ⟨node.kind, node.parents, node.placements, node.source⟩

/-- A root that the game may put into slots. -/
def isItem (node : NamedNode) : Bool :=
  node.placeable && node.kind.isRoot

@[simp] theorem isItem_placeAll (node : NamedNode) (locations : List String) :
    (node.placeAll locations).isItem = node.isItem := by
  rw [placeAll_eq]
  rfl

end NamedNode

/-- The entries of an export are nodes of the table, in the order of their names and each once:
all nodes that pass the test. -/
structure Export.Shows (e : Export) (table : FlatTable) (keep : NamedNode → Bool) : Prop where
  sorted : e.Pairwise fun a b => a.1 < b.1
  mem_iff : ∀ name exported, (name, exported) ∈ e ↔
    ∃ node, table.named? name = some node ∧ keep node = true ∧ node.exported = exported

theorem Export.Shows.mem_names_iff {e : Export} {table : FlatTable} {keep : NamedNode → Bool}
    (h : e.Shows table keep) {name : String} :
    name ∈ e.map Prod.fst ↔ (table.named? name).any keep = true := by
  rw [List.mem_map, Option.any_eq_true]
  constructor
  · rintro ⟨⟨_, exported⟩, hmem, rfl⟩
    obtain ⟨node, hnode, hkeep, -⟩ := (h.mem_iff _ _).1 hmem
    exact ⟨node, hnode, hkeep⟩
  · rintro ⟨node, hnode, hkeep⟩
    exact ⟨(name, node.exported), (h.mem_iff _ _).2 ⟨node, hnode, hkeep, rfl⟩, rfl⟩

theorem Export.pairwise_ofNodes {nodes : List (String × ExportedNode)}
    (h : (nodes.map Prod.fst).Nodup) : (Export.ofNodes nodes).Pairwise fun a b => a.1 < b.1 :=
  pairwise_lt_mergeSort_key (fun _ _ => decide_eq_true_iff) h

namespace FlatTable

variable {table : FlatTable} {g : Graph}

/-! ### The export of a table -/

theorem mem_exportWhere_iff {keep : FlatNode → Bool} {name : String} {exported : ExportedNode} :
    (name, exported) ∈ table.exportWhere keep ↔
      ∃ s node, table.node? s = some node ∧ keep node = true ∧ table.name s = name ∧
        table.exportNode node = exported := by
  rw [exportWhere, Export.ofNodes, List.mem_mergeSort, List.mem_map]
  constructor
  · rintro ⟨⟨s, node⟩, hmem, heq⟩
    obtain ⟨hdefined, hkeep⟩ := List.mem_filter.1 hmem
    obtain ⟨hname, hexported⟩ := Prod.mk.inj heq
    exact ⟨s, node, mem_defined_iff.1 hdefined, hkeep, hname, hexported⟩
  · rintro ⟨s, node, hnode, hkeep, hname, hexported⟩
    exact ⟨(s, node), List.mem_filter.2 ⟨mem_defined_iff.2 hnode, hkeep⟩, Prod.ext hname hexported⟩

/-- What a table exports can be read by name. -/
theorem WellFormed.shows_exportWhere (h : table.WellFormed) (keep : NamedNode → Bool) :
    (table.exportWhere fun node => keep (table.toNamed node)).Shows table keep where
  sorted := by
    apply Export.pairwise_ofNodes
    rw [List.map_map]
    have hnames : (table.defined.map fun entry => table.name entry.1).Nodup := by
      have hentries := h.nodup_entries
      rwa [entries, List.map_map] at hentries
    exact hnames.sublist (List.filter_sublist.map _)
  mem_iff name exported := by
    rw [mem_exportWhere_iff]
    constructor
    · rintro ⟨s, n, hn, hkeep, hname, hexported⟩
      exact ⟨table.toNamed n, h.named?_eq_some_iff.2 ⟨s, n, hn, hname, rfl⟩, hkeep, hexported⟩
    · rintro ⟨node, hnode, hkeep, hexported⟩
      obtain ⟨s, n, hn, hname, rfl⟩ := h.named?_eq_some_iff.1 hnode
      exact ⟨s, n, hn, hkeep, hname, hexported⟩

theorem WellFormed.shows_toExport (h : table.WellFormed) :
    table.toExport.Shows table fun _ => true :=
  h.shows_exportWhere fun _ => true

theorem WellFormed.shows_extraItems (h : table.WellFormed) :
    table.extraItems.Shows table NamedNode.isItem :=
  h.shows_exportWhere NamedNode.isItem

@[simp] theorem length_toExport (table : FlatTable) : table.toExport.length = table.size := by
  rw [toExport, exportWhere, Export.ofNodes, List.length_mergeSort, List.length_map,
    List.filter_eq_self.2 fun _ _ => rfl, length_defined]

/-! ### The export of a graph -/

/-- The node of the graph that a node of the table becomes. -/
def frozenNode (table : FlatTable) (s : Symbol) (node : FlatNode) : GraphNode :=
  ⟨table.name s, ⟨node.kind, node.parents, node.placements⟩, node.source, node.placeable⟩

/-- Whatever is kept, freezing does not change how it is exported. -/
theorem exportWhere_of_freeze (h : table.WellFormed) (hcovered : table.Covered [])
    (hfreeze : table.freeze = .ok g) {keep : FlatNode → Bool} {keep' : GraphNode → Bool}
    (hkeep : ∀ s node, keep' (table.frozenNode s node) = keep node) :
    g.exportWhere keep' = table.exportWhere keep := by
  have hg := numbers_of_freeze h hcovered hfreeze
  have hnodes : g.nodes = table.defined.map fun entry => table.frozenNode entry.1 entry.2 :=
    (freeze_eq_ok_iff.1 hfreeze).2.1
  have hexport : table.exportWhere keep =
      .ofNodes ((table.defined.filter fun entry => keep entry.2).map fun entry =>
        (table.name entry.1, table.exportNode entry.2)) := rfl
  have hfilter : table.defined.filter (keep' ∘ fun entry => table.frozenNode entry.1 entry.2) =
      table.defined.filter fun entry => keep entry.2 :=
    List.filter_congr fun entry _ => hkeep entry.1 entry.2
  rw [Graph.exportWhere, hexport, hnodes, List.filter_map, List.map_map, hfilter]
  refine congrArg Export.ofNodes (List.map_congr_left fun entry hentry => ?_)
  have hnode := mem_defined_iff.1 (List.mem_filter.1 hentry).1
  -- Ids of sources are symbols of the table, and have the same names.
  have hname : ∀ p ∈ entry.2.sources, g.name p = table.name p :=
    fun p hp => hg.name_eq (hg.lt_of_source h hnode hp)
  have hparents : entry.2.parents.map g.name = entry.2.parents.map table.name :=
    List.map_congr_left fun p hp => hname p (List.mem_append_left _ hp)
  have hplacements : entry.2.placements.map g.name = entry.2.placements.map table.name :=
    List.map_congr_left fun p hp => hname p (List.mem_append_right _ hp)
  simp only [Function.comp_apply, frozenNode, exportNode, hparents, hplacements]

theorem toExport_of_freeze (h : table.WellFormed) (hcovered : table.Covered [])
    (hfreeze : table.freeze = .ok g) : g.toExport = table.toExport :=
  exportWhere_of_freeze h hcovered hfreeze fun _ _ => rfl

theorem extraItems_of_freeze (h : table.WellFormed) (hcovered : table.Covered [])
    (hfreeze : table.freeze = .ok g) : g.extraItems = table.extraItems :=
  exportWhere_of_freeze h hcovered hfreeze fun _ _ => rfl

end FlatTable

/-! ### Items -/

/-- Linking makes no items and takes none away. -/
theorem Compiled.Built.isItem_linkAll {k : Compiled} (calls : List (List Placement))
    (h : k.Built) (journal : Journal) (name : String) :
    (((k.linkAll calls).run journal).1.1.table.named? name).any NamedNode.isItem =
      (k.table.named? name).any NamedNode.isItem := by
  rw [linkAll_table]
  exact FlatTable.any_linkAll h.wellFormed NamedNode.isItem_placeAll rfl calls name

namespace Rulebook

open Flatten

variable {book : Rulebook} {table : FlatTable}

/-- The items of a flat table are the root rules of tables of items. A gate written in place is
none, for its node is never marked as one. -/
theorem Tabulates.isItem_iff (h : book.Tabulates table) {name : String} :
    (table.named? name).any NamedNode.isItem = true ↔
      ∃ r ∈ book.rules, r.name = name ∧ r.placeable = true ∧ r.gate.kind.isRoot = true :=
  h.any_placeable_iff Kind.isRoot name

end Rulebook

namespace Compiler

variable {c : Compiler} {k : Compiled} {journal : Journal}

/-- Some table of items has a root rule of that name. -/
def HasItem (c : Compiler) (name : String) : Prop :=
  ∃ t ∈ c.tables, t.placeable = true ∧ ∃ gate, (name, gate) ∈ t.entries ∧ gate.kind = .root

theorem isItem_iff (hcompile : (c.compile.run journal).1 = .ok k) {name : String} :
    (k.table.named? name).any NamedNode.isItem = true ↔ c.HasItem name := by
  obtain ⟨book, hmerge, htabulates⟩ := exists_tabulates hcompile
  simp only [htabulates.isItem_iff, Kind.isRoot_eq_true_iff]
  exact Rulebook.exists_placeable_rule_iff hmerge (fun gate => gate.kind = .root) name

end Compiler

/-! ### Main statement -/

/-- How the rules of a compiler are seen once they are linked. Names in `given` were given to
gates written in place, and `start` is the table before anything was linked. -/
structure Compiled.ShowsRules (k : Compiled) (c : Compiler) (start : FlatTable)
    (given : List Expression) : Prop where
  /-- There is one entry for each node. -/
  toExport : k.toExport.Shows k.table fun _ => true
  length_toExport : k.toExport.length = k.table.size
  extraItems : k.extraItems.Shows k.table NamedNode.isItem
  /-- Items are what the tables of items say. -/
  mem_extraItems_iff : ∀ name, name ∈ k.extraItems.map Prod.fst ↔ c.HasItem name
  given_notMem : ∀ e ∈ given, e.name ∉ k.extraItems.map Prod.fst
  linked_notMem : ∀ name, start.named? name = none → name ∉ k.extraItems.map Prod.fst
  /-- Freezing changes neither view. -/
  freeze_eq : ∀ journal g, (k.freeze.run journal).1 = .ok g →
    g.toExport = k.toExport ∧ g.extraItems = k.extraItems

/-- Exports show what was written, before and after freezing. -/
theorem Compiler.exists_showsRules {c : Compiler} {k : Compiled} {journal : Journal}
    (hcompile : (c.compile.run journal).1 = .ok k) (calls : List (List Placement))
    (journal' : Journal) :
    ∃ later stats given, ((k.linkAll calls).run journal').1 = (later, stats) ∧
      k.table.Expresses c.rules given ∧ later.ShowsRules c k.table given := by
  have hbuilt : k.Built := .compile journal hcompile
  obtain ⟨book, hmerge, htabulates⟩ := exists_tabulates hcompile
  have hexpresses := htabulates.expresses (Rulebook.names_nodup hmerge) (Rulebook.rules_perm hmerge)
  have hlater := hbuilt.linkAll calls journal'
  have hkept := hbuilt.isItem_linkAll calls journal'
  generalize hrun : ((k.linkAll calls).run journal').1.1 = later at hlater hkept
  have hwell := hlater.wellFormed
  -- The names of items are those of the table before linking, and these are rules.
  have hnames : ∀ name, name ∈ later.extraItems.map Prod.fst ↔ c.HasItem name := by
    intro name
    rw [← isItem_iff hcompile, ← hkept]
    exact hwell.shows_extraItems.mem_names_iff
  refine ⟨later, _, book.given, Prod.ext hrun rfl, hexpresses, hwell.shows_toExport,
    FlatTable.length_toExport later.table, hwell.shows_extraItems, hnames, ?_, ?_, ?_⟩
  · intro e he hmem
    obtain ⟨t, ht, -, gate, hentry, -⟩ := (hnames _).1 hmem
    have hr : ⟨e.name, gate, t.name, t.placeable⟩ ∈ c.rules :=
      Rulebook.mem_flatMap_rules_iff.2 ⟨t, ht, hentry, rfl, rfl⟩
    exact hexpresses.name_ne_of_given hr he rfl
  · intro name hnone hmem
    have hitem := (isItem_iff hcompile).2 ((hnames name).1 hmem)
    rw [hnone] at hitem
    contradiction
  · intro journal'' g hfreeze
    exact ⟨FlatTable.toExport_of_freeze hwell hlater.covered hfreeze,
      FlatTable.extraItems_of_freeze hwell hlater.covered hfreeze⟩

/-- A table of items: key `k`, and box `b` that holds a root of its own. -/
def boxCompiler : Compiler where
  tables := [⟨"t", true, [("k", .root), ("b", ⟨.andSlot, [.named "k", .inline .root []]⟩)]⟩]

def boxGraph : Graph :=
  ⟨[⟨"b", ⟨.andSlot, [2, 1], []⟩, "t", true⟩, ⟨"b 1", ⟨.root, [], []⟩, "t", false⟩,
    ⟨"k", ⟨.root, [], []⟩, "t", true⟩, ⟨"c", ⟨.and, [], [0]⟩, "linkage", false⟩],
    [[3], [0], [0], []]⟩

/-- The key is an item; the root in the box and coin `c`, which lies in the box, are none. -/
theorem exists_showsRules_box :
    ∃ k later stats given, (boxCompiler.compile.run {}).1 = .ok k ∧
      ((k.linkAll [[⟨"b", "c"⟩]]).run {}).1 = (later, stats) ∧
      k.table.Expresses boxCompiler.rules given ∧ later.ShowsRules boxCompiler k.table given ∧
      (later.freeze.run {}).1 = .ok boxGraph ∧ boxGraph.toExport = later.toExport ∧
      boxGraph.extraItems = later.extraItems ∧
      boxGraph.extraItems = [("k", ⟨.root, [], [], "t"⟩)] := by
  have hruns : ((boxCompiler.compile.run {}).1.map fun k =>
      (((k.linkAll [[⟨"b", "c"⟩]]).run {}).1.1.freeze.run {}).1) = .ok (.ok boxGraph) := by cbv
  obtain ⟨k, hcompile, hfreeze⟩ := exists_eq_ok_of_map hruns
  obtain ⟨later, stats, given, hlinked, hexpresses, hshows⟩ :=
    Compiler.exists_showsRules hcompile [[⟨"b", "c"⟩]] {}
  rw [hlinked] at hfreeze
  obtain ⟨htoExport, hextraItems⟩ := hshows.freeze_eq {} boxGraph hfreeze
  exact ⟨k, later, stats, given, hcompile, hlinked, hexpresses, hshows, hfreeze, htoExport,
    hextraItems, by cbv⟩

end Progression

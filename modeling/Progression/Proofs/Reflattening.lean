import Progression.Proofs.Union

/-!
Flattening what is flat. A flat table can be written down as a table of rules, under a label that
takes the place of its sources, and flattened again. Nothing is lifted then, and the same rules
come in the same order as before, so every step gives the symbols that it gave the first time.
Main statement: the second table is the first one but for its sources.
-/

namespace Progression

def FlatNode.relabel (label : String) (node : FlatNode) : FlatNode :=
  { node with source := label, placeable := false }

def FlatRule.relabel (label : String) (r : FlatRule) : FlatRule :=
  { r with source := label, placeable := false }

/-- The rule that writes a flat rule down. -/
def FlatRule.toRule (label : String) (r : FlatRule) : Rule :=
  ⟨r.name, ⟨r.kind, r.parents.map .named⟩, label, false⟩

namespace FlatTable

/-- The table with other sources, in which nothing is an item. -/
def relabel (table : FlatTable) (label : String) (stats : FlattenStats) : FlatTable :=
  ⟨table.symbols, table.nodes.map (Option.map (FlatNode.relabel label)), stats⟩

/-! ### Sources decide nothing -/

section Relabel

variable (table : FlatTable) (label : String) (stats : FlattenStats)

@[simp] theorem node?_relabel (s : Symbol) :
    (table.relabel label stats).node? s = (table.node? s).map (FlatNode.relabel label) := by
  rw [node?, node?, relabel, Array.getElem?_map]
  cases table.nodes[s]? <;> rfl

@[simp] theorem intern_relabel (name : String) :
    (table.relabel label stats).intern name =
      ((table.intern name).1.relabel label stats, (table.intern name).2) := by
  obtain ⟨symbols, nodes, stats'⟩ := table
  simp only [relabel, intern, Array.size_map, Prod.mk.injEq, and_true]
  split <;> simp

@[simp] theorem internAll_relabel (names : List String) :
    (table.relabel label stats).internAll names =
      ((table.internAll names).1.relabel label stats, (table.internAll names).2) := by
  induction names generalizing table with
  | nil => rfl
  | cons name names ih =>
      rw [internAll_cons, intern_relabel, ih, internAll_cons]

@[simp] theorem define_relabel (s : Symbol) (node : FlatNode) :
    (table.relabel label stats).define s (node.relabel label) =
      (table.define s node).relabel label stats := by
  simp [relabel, define, Array.map_setIfInBounds]

@[simp] theorem addRule_relabel (r : FlatRule) :
    Flatten.addRule (table.relabel label stats) (r.relabel label) =
      (Flatten.addRule table r).relabel label stats := by
  have hintern := intern_relabel table label stats r.name
  have hall := internAll_relabel (table.intern r.name).1 label stats r.parents
  have hwith : Flatten.withRule (table.relabel label stats) (r.relabel label) =
      (Flatten.withRule table r).relabel label stats := by
    show (((table.relabel label stats).intern r.name).1.internAll r.parents).1 = _
    rw [hintern, hall]
    rfl
  have hparents : Flatten.parentsOf (table.relabel label stats) (r.relabel label) =
      Flatten.parentsOf table r := by
    show (((table.relabel label stats).intern r.name).1.internAll r.parents).2 = _
    rw [hintern, hall]
    rfl
  have hsymbol : ((table.relabel label stats).intern (r.relabel label).name).2 =
      (table.intern r.name).2 := by
    show ((table.relabel label stats).intern r.name).2 = _
    rw [hintern]
  rw [Flatten.addRule_eq, Flatten.addRule_eq, hwith, hparents, hsymbol, ← define_relabel]
  rfl

@[simp] theorem defined_relabel :
    (table.relabel label stats).defined =
      table.defined.map fun (s, node) => (s, node.relabel label) := by
  simp only [defined, relabel, Array.toList_map, List.zipIdx_map, List.filterMap_map,
    List.map_filterMap, Option.map_map, Function.comp_def, Prod.map, id]

@[simp] theorem toTable_relabel (label' : String) :
    (table.relabel label stats).toTable label' = table.toTable label' := by
  rw [toTable, defined_relabel, List.map_map]
  rfl

end Relabel

end FlatTable

open FlatTable Flatten

/-- Rules under another label make the same table but for its sources. -/
theorem Flatten.ofRules_relabel (rules : List FlatRule) (label : String)
    (stats stats' : FlattenStats) :
    ofRules (rules.map (FlatRule.relabel label)) stats' =
      (ofRules rules stats).relabel label stats' := by
  have hintern : internNames { stats := stats' } (rules.map (FlatRule.relabel label)) =
      (internNames { stats } rules).relabel label stats' := by
    have hempty : ({ stats := stats' } : FlatTable) = relabel { stats } label stats' := by
      simp [relabel]
    rw [internNames, internNames, List.foldl_map, hempty]
    refine List.foldl_hom (fun t : FlatTable => t.relabel label stats') fun t r => ?_
    exact congrArg Prod.fst (intern_relabel t label stats' r.name)
  rw [ofRules_eq, ofRules_eq, hintern, List.foldl_map]
  exact List.foldl_hom (fun t : FlatTable => t.relabel label stats') fun t r =>
    addRule_relabel t label stats' r

/-! ### Writing a table down -/

namespace Flatten

variable {taken : Std.TreeSet String} {rules : List FlatRule} {label : String}

@[simp] theorem depth_toRule (r : FlatRule) : (r.toRule label).gate.depth = 0 := by
  apply Nat.le_zero.1
  apply Parent.depthAll_le
  intro p hp
  obtain ⟨name, -, rfl⟩ := List.mem_map.1 hp
  rw [Parent.depth]

@[simp] theorem liftParents_map_named (owner : Rule) (k : Nat) (names : List String) :
    liftParents owner taken k (names.map .named) = (names, []) := by
  induction names with
  | nil => rfl
  | cons name names ih => rw [List.map_cons, liftParents_named, ih]

@[simp] theorem stripped_map_toRule (rules : List FlatRule) :
    stripped taken (rules.map (FlatRule.toRule label)) = rules.map (FlatRule.relabel label) := by
  rw [stripped, List.map_map]
  refine List.map_congr_left fun r _ => ?_
  rw [Function.comp_apply, lift_fst]
  simp only [FlatRule.toRule, liftParents_map_named, FlatRule.relabel]

end Flatten

namespace Rulebook

variable {book : Rulebook} {table : FlatTable} {rules : List FlatRule}

@[simp] theorem rules_toTable (table : FlatTable) (label : String) :
    (table.toTable label).rules = table.entries.map fun entry =>
      ⟨entry.1, ⟨entry.2.kind, entry.2.parents.map .named⟩, label, false⟩ := by
  rw [Table.rules, toTable, entries, List.map_map, List.map_map]
  refine List.map_congr_left fun entry _ => ?_
  simp [toNamed]

/-- A table that was made of rules in the order of their names merges to these rules. -/
theorem ofTables_toTable
    (hentries : table.entries.Perm (rules.map fun r => (r.name, r.toNamed)))
    (hsorted : rules.Pairwise fun r s => r.name < s.name) (label : String) :
    ofTables [table.toTable label] = .ok ⟨rules.map (FlatRule.toRule label)⟩ := by
  have hrules : ([table.toTable label].flatMap Table.rules).Perm
      (rules.map (FlatRule.toRule label)) := by
    rw [List.flatMap_singleton, rules_toTable]
    refine (hentries.map _).trans (.of_eq ?_)
    rw [List.map_map]
    rfl
  have hsorted' : (rules.map (FlatRule.toRule label)).Pairwise fun r s => r.name < s.name :=
    List.pairwise_map.2 hsorted
  have hnodup : (([table.toTable label].flatMap Table.rules).map Rule.name).Nodup := by
    rw [(hrules.map Rule.name).nodup_iff]
    exact List.pairwise_map.2 (hsorted'.imp fun hlt => ne_of_lt hlt)
  have hmerge := ofTables_eq_ok_iff.2 ⟨hnodup, rfl⟩
  have hperm := (rules_perm hmerge).trans hrules
  -- the merge sorts, and what is sorted by distinct names is settled by its members
  have heq := hperm.eq_of_pairwise (fun r s _ _ hrs hsr => absurd hsr hrs.asymm)
    (sorted_rules hmerge) hsorted'
  rw [hmerge]
  exact congrArg (fun l => (.ok ⟨l⟩ : Except MergeError Rulebook)) heq

/-- Rules that are flat are flattened in no round. -/
theorem flatten?_map_toRule (hsorted : rules.Pairwise fun r s => r.name < s.name)
    (label : String) (cap : Nat) (stats : FlattenStats) :
    Rulebook.flatten? ⟨rules.map (FlatRule.toRule label)⟩ cap =
      some ((ofRules rules stats).relabel label {}) := by
  have hnone : lifted (taken ⟨rules.map (FlatRule.toRule label)⟩)
      (rules.map (FlatRule.toRule label)) = [] := by
    apply lifted_eq_nil
    intro r hr
    obtain ⟨f, -, rfl⟩ := List.mem_map.1 hr
    exact depth_toRule f
  have hsame : (rules.map (FlatRule.relabel label)).mergeSort Flatten.byName =
      rules.map (FlatRule.relabel label) := by
    apply List.mergeSort_of_pairwise
    rw [List.pairwise_map]
    exact hsorted.imp fun hlt => decide_eq_true (le_of_lt hlt)
  rw [flatten?_eq_of_rounds (rounds_of_none hnone _), stripped_map_toRule, hsame,
    ofRules_relabel rules label stats]

/-- The table is made of flat rules in the order of their names. -/
theorem exists_sorted_ofRules (hnodup : book.names.Nodup) (cap : Nat) :
    ∃ rules stats, book.flatten? cap = some (ofRules rules stats) ∧
      rules.Pairwise fun r s => r.name < s.name := by
  obtain ⟨flat, stats, hflatten, hsettles⟩ := exists_settles book cap
  have hnames : (flat.map FlatRule.name).Nodup :=
    (hsettles.perm.map _).nodup_iff.2 (nodup_names_expansion hnodup)
  exact ⟨_, stats, hflatten,
    pairwise_lt_mergeSort_key (fun _ _ => decide_eq_true_iff) hnames⟩

/-! ### Main statement -/

/-- Flattening a table that has been flattened and written down lifts nothing, and gives the same
symbols to the same names and the same nodes to the same symbols, whatever the cap. -/
theorem exists_flatten?_toTable {tables : List Table} (hmerge : ofTables tables = .ok book)
    (cap : Nat) :
    ∃ table, book.flatten? cap = some table ∧
      ∀ label, ∃ book', ofTables [table.toTable label] = .ok book' ∧
        ∀ cap', ∃ table', book'.flatten? cap' = some table' ∧
          table'.stats.rounds = 0 ∧ table'.stats.synthesized = 0 ∧
          table'.symbols = table.symbols ∧
          (∀ s, table'.node? s =
            (table.node? s).map fun node => { node with source := label, placeable := false }) ∧
          ∀ label', table'.toTable label' = table.toTable label' := by
  obtain ⟨rules, stats, hflatten, hsorted⟩ := exists_sorted_ofRules (names_nodup hmerge) cap
  have hnames : (rules.map FlatRule.name).Nodup :=
    List.pairwise_map.2 (hsorted.imp fun hlt => ne_of_lt hlt)
  obtain ⟨hwell, -, -, hnamed⟩ := ofRules_spec stats hnames
  have hentries := entries_perm_of_named? hwell hnames hnamed
  refine ⟨_, hflatten, fun label => ⟨_, ofTables_toTable hentries hsorted label, fun cap' => ?_⟩⟩
  exact ⟨_, flatten?_map_toRule hsorted label cap' stats, rfl, rfl, rfl,
    node?_relabel _ label {}, toTable_relabel _ label {}⟩

/-- A rule that mentions a name without a rule, which looks like a given one. -/
theorem exists_flatten?_toTable_vault :
    ofTables vaultTables = .ok vaultBook ∧
      ∃ table book' table', vaultBook.flatten? 64 = some table ∧
        ofTables [table.toTable "flat"] = .ok book' ∧ book'.flatten? 0 = some table' ∧
        table'.stats.rounds = 0 ∧ table'.symbols = table.symbols ∧
        table'.toTable "flat" = table.toTable "flat" := by
  have hmerge : ofTables vaultTables = .ok vaultBook := by cbv
  obtain ⟨table, hflatten, hagain⟩ := exists_flatten?_toTable hmerge 64
  obtain ⟨book', hmerge', hflat⟩ := hagain "flat"
  obtain ⟨table', hflatten', hrounds, -, hsymbols, -, htoTable⟩ := hflat 0
  exact ⟨hmerge, table, book', table', hflatten, hmerge', hflatten', hrounds, hsymbols,
    htoTable "flat"⟩

end Rulebook

end Progression

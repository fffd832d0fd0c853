import Progression.Proofs.Reflattening
import Progression.Proofs.Relinking

/-!
The vocabulary of a table. A name gets the next symbol, and a slot for its node with it, when it
is met for the first time: as the name of a rule, among its parents or in a record. Main
statement: at first the symbols of nodes come in the order of their names, and those of names
without a node in the order in which they are mentioned; whatever is linked then, symbols and
names lead to each other, no symbol changes, and no symbol is without its slot.
-/

namespace Progression

theorem eraseDups_of_nodup {l : List String} (h : l.Nodup) : l.eraseDups = l := by
  induction l with
  | nil => rfl
  | cons name l ih =>
      obtain ⟨hnew, hnodup⟩ := List.nodup_cons.1 h
      have hkeep : l.filter (fun other => !other == name) = l := by
        rw [List.filter_eq_self]
        rintro other hmem
        have hne : other ≠ name := fun heq => hnew (heq ▸ hmem)
        simpa using hne
      rw [List.eraseDups_cons, hkeep, ih hnodup]

namespace FlatTable

variable {table : FlatTable} {met : List String}

/-! ### The order in which symbols are given -/

/-- The symbols so far have been given to the names met so far, each when it was met first. -/
def HasMet (table : FlatTable) (met : List String) : Prop :=
  table.vocabulary = met.eraseDups

theorem HasMet.intern (h : table.HasMet met) (name : String) :
    (table.intern name).1.HasMet (met ++ [name]) := by
  have hmem : name ∈ table.vocabulary ↔ name ∈ met := by
    rw [h, List.mem_eraseDups]
  rw [HasMet, vocabulary_intern, List.eraseDups_append]
  split
  case isTrue hold =>
      have hnone : [name].removeAll met = [] := by
        simp [List.removeAll, hmem.1 hold]
      rw [hnone, List.eraseDups_nil, List.append_nil]
      exact h
  case isFalse hnew =>
      have hone : [name].removeAll met = [name] := by
        simp [List.removeAll, mt hmem.2 hnew]
      rw [hone, eraseDups_of_nodup (List.nodup_singleton name), h]

theorem HasMet.internAll (h : table.HasMet met) (names : List String) :
    (table.internAll names).1.HasMet (met ++ names) := by
  induction names generalizing table met with
  | nil =>
      rw [List.append_nil]
      exact h
  | cons name names ih =>
      rw [List.append_cons]
      exact ih (h.intern name)

end FlatTable

namespace Flatten

open FlatTable

variable {table : FlatTable} {met : List String} {rules : List FlatRule} {stats : FlattenStats}

theorem hasMet_internNames (h : table.HasMet met) (rules : List FlatRule) :
    (internNames table rules).HasMet (met ++ rules.map FlatRule.name) := by
  induction rules generalizing table met with
  | nil =>
      rw [List.map_nil, List.append_nil]
      exact h
  | cons r rules ih =>
      rw [List.map_cons, List.append_cons]
      exact ih (h.intern r.name)

/-- A rule is met with its name first and then with its parents. -/
theorem hasMet_addRule (h : table.HasMet met) (r : FlatRule) :
    (addRule table r).HasMet (met ++ r.name :: r.parents) := by
  rw [List.append_cons]
  exact (h.intern r.name).internAll r.parents

theorem hasMet_addRules (h : table.HasMet met) (rules : List FlatRule) :
    (rules.foldl addRule table).HasMet
      (met ++ rules.flatMap fun r => r.name :: r.parents) := by
  induction rules generalizing table met with
  | nil =>
      rw [List.flatMap_nil, List.append_nil]
      exact h
  | cons r rules ih =>
      rw [List.flatMap_cons, ← List.append_assoc]
      exact ih (hasMet_addRule h r)

/-- Rules have the first symbols. Their names are met a second time with their parents, which
gives no symbols, and parents without a rule follow. -/
theorem vocabulary_ofRules (hnodup : (rules.map FlatRule.name).Nodup) :
    (ofRules rules stats).vocabulary = rules.map FlatRule.name ++
      ((rules.flatMap FlatRule.parents).removeAll (rules.map FlatRule.name)).eraseDups := by
  have hempty : ({ stats } : FlatTable).HasMet [] := rfl
  have hmet := hasMet_addRules (hasMet_internNames hempty rules) rules
  have hrest : (rules.flatMap fun r => r.name :: r.parents).removeAll (rules.map FlatRule.name) =
      (rules.flatMap FlatRule.parents).removeAll (rules.map FlatRule.name) := by
    rw [List.removeAll, List.removeAll, List.filter_flatMap, List.filter_flatMap]
    refine List.flatMap_congr fun r hr => List.filter_cons_of_neg ?_
    simpa using ⟨r, hr, rfl⟩
  rw [List.nil_append, HasMet, List.eraseDups_append, eraseDups_of_nodup hnodup, hrest] at hmet
  rw [ofRules_eq]
  exact hmet

/-! ### Where nodes are -/

/-- Symbols are the places of rules. -/
theorem symbol?_ofRules (hnodup : (rules.map FlatRule.name).Nodup) {s : Symbol}
    (hs : s < rules.length) : (ofRules rules stats).symbol? rules[s].name = some s := by
  obtain ⟨hwell, -⟩ := ofRules_spec stats hnodup
  rw [symbol?, SymbolTable.get?_eq_some_iff hwell.vocabulary_nodup]
  show (ofRules rules stats).vocabulary[s]? = _
  rw [vocabulary_ofRules hnodup, List.getElem?_append_left (by simpa using hs),
    List.getElem?_map, List.getElem?_eq_getElem hs]
  rfl

theorem name_ofRules (hnodup : (rules.map FlatRule.name).Nodup) {s : Symbol}
    (hs : s < rules.length) : (ofRules rules stats).name s = rules[s].name :=
  ((ofRules_spec stats hnodup).1.symbol?_eq_some_iff.1 (symbol?_ofRules hnodup hs)).2

/-- The symbols of rules have nodes, and no others. -/
theorem exists_node_ofRules_iff (hnodup : (rules.map FlatRule.name).Nodup) {s : Symbol} :
    (∃ node, (ofRules rules stats).node? s = some node) ↔ s < rules.length := by
  obtain ⟨hwell, -, -, hnamed⟩ := ofRules_spec stats hnodup
  constructor
  · rintro ⟨node, hnode⟩
    obtain ⟨r, hr, hname, -⟩ :=
      (hnamed _ _).1 (hwell.named?_eq_some_iff.2 ⟨s, node, hnode, rfl, rfl⟩)
    obtain ⟨j, hj, rfl⟩ := List.getElem_of_mem hr
    -- The rule has its place as its symbol, and its name has no other symbol.
    have hsymbol := hwell.symbol?_eq_some_iff.2 ⟨hwell.lt_of_node? hnode, hname.symm⟩
    rw [symbol?_ofRules hnodup hj, Option.some.injEq] at hsymbol
    exact hsymbol ▸ hj
  · intro hs
    have hrule := (hnamed _ _).2 ⟨rules[s], List.getElem_mem hs, rfl, rfl⟩
    rw [← name_ofRules hnodup hs, hwell.named?_name] at hrule
    · obtain ⟨node, hnode, -⟩ := Option.map_eq_some_iff.1 hrule
      exact ⟨node, hnode⟩
    · exact (hwell.symbol?_eq_some_iff.1 (symbol?_ofRules hnodup hs)).1

theorem nodup_names_of_sorted (hsorted : rules.Pairwise fun r q => r.name < q.name) :
    (rules.map FlatRule.name).Nodup :=
  List.pairwise_map.2 (hsorted.imp fun hlt => ne_of_lt hlt)

/-- Nodes come in the order of the rules. -/
theorem entries_ofRules (stats : FlattenStats)
    (hsorted : rules.Pairwise fun r q => r.name < q.name) :
    (ofRules rules stats).entries = rules.map fun r => (r.name, r.toNamed) := by
  have hnodup := nodup_names_of_sorted hsorted
  obtain ⟨hwell, -, -, hnamed⟩ := ofRules_spec stats hnodup
  have hperm := entries_perm_of_named? hwell hnodup hnamed
  have hrules : (rules.map fun r => (r.name, r.toNamed)).Pairwise fun a b => a.1 < b.1 :=
    List.pairwise_map.2 hsorted
  have hentries : (ofRules rules stats).entries.Pairwise fun a b => a.1 < b.1 := by
    have hrising : ((ofRules rules stats).defined.map Prod.fst).Pairwise (· < ·) :=
      (List.pairwise_lt_range' 1).sublist (sublist_range'_numbered _ 0)
    rw [entries, List.pairwise_map]
    refine (List.pairwise_map.1 hrising).imp_of_mem fun {a b} ha hb hlt => ?_
    -- The symbols of nodes are places of rules, whose names rise.
    have hplace : ∀ entry ∈ (ofRules rules stats).defined, entry.1 < rules.length :=
      fun entry hentry => (exists_node_ofRules_iff hnodup).1 ⟨_, mem_defined_iff.1 hentry⟩
    show (ofRules rules stats).name a.1 < (ofRules rules stats).name b.1
    rw [name_ofRules hnodup (hplace a ha), name_ofRules hnodup (hplace b hb)]
    exact List.pairwise_iff_getElem.1 hsorted _ _ _ _ hlt
  exact hperm.eq_of_pairwise (fun a b _ _ hab hba => absurd hba hab.asymm) hentries hrules

end Flatten

namespace FlatTable

variable {table : FlatTable}

/-- Mentioned names without a node, in the order in which they are mentioned first. -/
def openNames (table : FlatTable) : List String :=
  (table.mentions.removeAll table.names).eraseDups

/-- Names with a node have the first symbols, in the order of the names. Names without one have
the symbols behind them, in the order in which nodes mention them first. -/
structure IsOrdered (table : FlatTable) : Prop where
  vocabulary_eq : table.vocabulary = table.names ++ table.openNames
  names_lt : table.names.Pairwise (· < ·)
  exists_node_iff : ∀ s, (∃ node, table.node? s = some node) ↔ s < table.names.length

theorem isOrdered_ofRules {rules : List FlatRule} (stats : FlattenStats)
    (hsorted : rules.Pairwise fun r q => r.name < q.name) :
    (Flatten.ofRules rules stats).IsOrdered := by
  have hnodup := Flatten.nodup_names_of_sorted hsorted
  have hentries := Flatten.entries_ofRules stats hsorted
  have hnames : (Flatten.ofRules rules stats).names = rules.map FlatRule.name := by
    rw [names, hentries, List.map_map]
    rfl
  have hmentions : (Flatten.ofRules rules stats).mentions = rules.flatMap FlatRule.parents := by
    rw [mentions, hentries, List.flatMap_map]
    rfl
  refine ⟨?_, ?_, fun s => ?_⟩
  · rw [openNames, hnames, hmentions]
    exact Flatten.vocabulary_ofRules hnodup
  · rw [hnames]
    exact List.pairwise_map.2 hsorted
  · rw [hnames, List.length_map]
    exact Flatten.exists_node_ofRules_iff hnodup

/-! ### Symbols and names -/

/-- Symbols and names lead to each other, each symbol has a slot, and nodes list symbols. -/
structure Coherent (table : FlatTable) : Prop where
  /-- The name of a symbol is given this symbol again, and nothing is added. -/
  intern_name : ∀ s < table.symbols.size, table.intern (table.name s) = (table, s)
  name_symbol? : ∀ name s, table.symbol? name = some s →
    s < table.symbols.size ∧ table.name s = name
  name_inj : ∀ s < table.symbols.size, ∀ t < table.symbols.size, table.name s = table.name t →
    s = t
  /-- A name that comes later takes no symbol from another. -/
  symbol?_intern : ∀ name other s, table.symbol? name = some s →
    (table.intern other).1.symbol? name = some s
  nodes_size : table.nodes.size = table.symbols.size
  parents_lt : ∀ s node, table.node? s = some node → ∀ p ∈ node.parents, p < table.symbols.size
  placements_lt : ∀ s node, table.node? s = some node →
    ∀ p ∈ node.placements, p < table.symbols.size

theorem WellFormed.intern_name (h : table.WellFormed) {s : Symbol}
    (hs : s < table.symbols.size) : table.intern (table.name s) = (table, s) := by
  have hsame : (table.intern (table.name s)).1 = table :=
    intern_of_mem h (SymbolTable.name_mem hs)
  have hname := name_intern table (table.name s)
  have hlt := lt_intern table (table.name s)
  rw [hsame] at hname hlt
  exact Prod.ext hsame (SymbolTable.name_inj h.vocabulary_nodup hlt hs hname)

theorem WellFormed.coherent (h : table.WellFormed) : table.Coherent where
  intern_name _ := h.intern_name
  name_symbol? _ _ := h.symbol?_eq_some_iff.1
  name_inj _ hs _ ht := SymbolTable.name_inj h.vocabulary_nodup hs ht
  symbol?_intern _ other _ := (extends_intern table other).symbol? h (h.intern other)
  nodes_size := h.nodes_size
  parents_lt s node hnode p hp := h.sources_lt s node hnode p (List.mem_append_left _ hp)
  placements_lt s node hnode p hp := h.sources_lt s node hnode p (List.mem_append_right _ hp)

/-! ### Nodes and marks after linking -/

@[simp]
theorem contains_iff {name : String} : table.contains name = true ↔ table.named? name ≠ none := by
  rw [contains, named?, Option.isSome_iff_ne_none, Ne, Ne, Option.map_eq_none_iff]

/-- After linking there are the nodes that were there, and those of treasures. -/
theorem contains_link_iff (h : table.WellFormed) (records : List Placement) {name : String} :
    (table.link records).1.contains name = true ↔
      table.contains name = true ∨ ∃ record ∈ records, record.treasure = name := by
  have hlocations : Placement.locations records name ≠ [] ↔
      ∃ record ∈ records, record.treasure = name := by
    rw [Placement.locations, Ne, List.map_eq_nil_iff, List.filter_eq_nil_iff]
    simp
  rw [contains_iff, contains_iff, named?_link h, ← hlocations]
  split
  case isTrue hnil => simp [hnil]
  case isFalse hsome => simp [hsome]

theorem contains_linkAll_iff (h : table.WellFormed) (calls : List (List Placement))
    {name : String} :
    (table.linkAll calls).contains name = true ↔
      table.contains name = true ∨ ∃ call ∈ calls, ∃ record ∈ call, record.treasure = name := by
  induction calls generalizing table with
  | nil => simp [linkAll]
  | cons records calls ih =>
      refine (ih (h.link records)).trans ?_
      rw [contains_link_iff h, or_assoc]
      simp

/-- A mark found by name is found by symbol. -/
theorem any_placeable_iff_symbol {name : String} :
    (table.named? name).any NamedNode.placeable = true ↔
      ∃ s node, table.symbol? name = some s ∧ table.node? s = some node ∧
        node.placeable = true := by
  rw [named?, get?]
  cases table.symbol? name with
  | none => simp
  | some s => cases hnode : table.node? s <;> simp [hnode, toNamed]

end FlatTable

/-! ### Main statement -/

namespace Rulebook

open Flatten

variable {book : Rulebook} {table : FlatTable}

/-- Names without a node are those that some rule mentions and none defines. -/
theorem Tabulates.mem_openNames_iff (h : book.Tabulates table) (hnodup : book.names.Nodup)
    {name : String} :
    name ∈ table.openNames ↔ name ∈ book.references ∧ name ∉ book.names := by
  have hnames : name ∈ table.names ↔ name ∈ book.names ∨ name ∈ book.made := by
    rw [(h.names_perm hnodup).mem_iff, List.mem_append]
  have hmentions : name ∈ table.mentions ↔ name ∈ book.references ∨ name ∈ book.made := by
    rw [← List.count_pos_iff, h.count_mentions_eq hnodup, Nat.add_pos_iff_pos_or_pos,
      List.count_pos_iff, List.count_pos_iff]
  have hopen : name ∈ table.openNames ↔ name ∈ table.mentions ∧ name ∉ table.names := by
    simp [FlatTable.openNames, List.removeAll]
  rw [hopen, hmentions, hnames, not_or]
  constructor
  · rintro ⟨hmention, hold, hmade⟩
    exact ⟨hmention.resolve_right hmade, hold⟩
  · rintro ⟨hreference, hold⟩
    exact ⟨Or.inl hreference, hold, fun hmade => (fresh_of_mem_made hmade).2 hreference⟩

/-- Marks stay where the tables have put them, whatever is linked. -/
theorem placeable_linkAll_iff {tables : List Table} (hmerge : ofTables tables = .ok book)
    (h : book.Tabulates table) (calls : List (List Placement)) {name : String} :
    (∃ t ∈ tables, t.placeable = true ∧ ∃ gate, (name, gate) ∈ t.entries) ↔
      ∃ s node, (table.linkAll calls).symbol? name = some s ∧
        (table.linkAll calls).node? s = some node ∧ node.placeable = true := by
  have hplaced : ∀ (node : NamedNode) locations,
      (node.placeAll locations).placeable = node.placeable := by
    intro node locations
    rw [NamedNode.placeAll_eq]
  have hrules := h.any_placeable_iff (fun _ => true) name
  have htables := exists_placeable_rule_iff hmerge (fun _ => True) name
  simp only [Bool.and_true, and_true] at hrules htables
  rw [← FlatTable.any_placeable_iff_symbol,
    FlatTable.any_linkAll h.wellFormed hplaced rfl calls name]
  exact htables.symm.trans hrules.symm

/-- Flattening gives the first symbols to the names of nodes, in their order, and the next ones
to the other names, as they are first mentioned. Whatever is linked then, symbols and names lead
to each other and every symbol has its slot; symbols that have been given stay the same; all rules
and treasures have nodes, and those of tables of items, and no others, are marked. -/
theorem exists_flatten?_coherent {tables : List Table} (hmerge : ofTables tables = .ok book)
    (cap : Nat) :
    ∃ table, book.flatten? cap = some table ∧ table.IsOrdered ∧
      (∀ name, name ∈ table.openNames ↔ name ∈ book.references ∧ name ∉ book.names) ∧
      book.names ⊆ table.names ∧
      ∀ calls, (table.linkAll calls).Coherent ∧
        (∀ more name s, (table.linkAll calls).symbol? name = some s →
          (table.linkAll (calls ++ more)).symbol? name = some s) ∧
        (∀ name, (table.linkAll calls).contains name = true ↔
          table.contains name = true ∨
            ∃ call ∈ calls, ∃ record ∈ call, record.treasure = name) ∧
        ∀ name, (∃ t ∈ tables, t.placeable = true ∧ ∃ gate, (name, gate) ∈ t.entries) ↔
          ∃ s node, (table.linkAll calls).symbol? name = some s ∧
            (table.linkAll calls).node? s = some node ∧ node.placeable = true := by
  have hnodup := names_nodup hmerge
  obtain ⟨table, hflatten, h⟩ := exists_tabulates hnodup cap
  obtain ⟨rules, stats, hflatten', hsorted⟩ := exists_sorted_ofRules hnodup cap
  have hordered : table.IsOrdered := by
    rw [Option.some.inj (hflatten.symm.trans hflatten')]
    exact FlatTable.isOrdered_ofRules stats hsorted
  have hnames : book.names ⊆ table.names := fun _ hname =>
    (h.names_perm hnodup).mem_iff.2 (List.mem_append_left _ hname)
  refine ⟨table, hflatten, hordered, fun _ => h.mem_openNames_iff hnodup, hnames, ?_⟩
  intro calls
  have hlinked := h.wellFormed.linkAll calls
  refine ⟨hlinked.coherent, ?_, fun _ => FlatTable.contains_linkAll_iff h.wellFormed calls,
    fun _ => placeable_linkAll_iff hmerge h calls⟩
  intro more name s hsymbol
  rw [FlatTable.linkAll_append]
  exact (FlatTable.extends_linkAll hlinked more).symbol? hlinked (hlinked.linkAll more) hsymbol

/-- Barn `b`, a place of a table of items, asks for wind `w` or mill `m`. The mill asks for straw
`s` and, in place, for the barn. Neither wind nor straw has a rule. -/
def millTables : List Table :=
  [⟨"t", false, [("m", ⟨.and, [.named "s", .inline .or [.named "b"]]⟩)]⟩,
    ⟨"i", true, [("b", ⟨.or, [.named "w", .named "m"]⟩)]⟩]

def millBook : Rulebook :=
  ⟨[⟨"b", ⟨.or, [.named "w", .named "m"]⟩, "i", true⟩,
    ⟨"m", ⟨.and, [.named "s", .inline .or [.named "b"]]⟩, "t", false⟩]⟩

/-- The barn mentions wind before the mill mentions straw. Then the wind is found in loft `l`,
which no rule mentions and which gets the next symbol. -/
theorem exists_flatten?_coherent_mill :
    ofTables millTables = .ok millBook ∧
      ∃ table, millBook.flatten? 64 = some table ∧ table.IsOrdered ∧
        table.names = ["b", "m", "m 1"] ∧ table.openNames = ["w", "s"] ∧
        (table.linkAll [[⟨"l", "w"⟩]]).Coherent ∧
        (table.linkAll [[⟨"l", "w"⟩]]).symbol? "l" = some 5 ∧
        (table.linkAll [[⟨"l", "w"⟩], [⟨"m", "b"⟩]]).symbol? "l" = some 5 ∧
        (table.linkAll [[⟨"l", "w"⟩]]).contains "w" = true ∧
        ∃ s node, (table.linkAll [[⟨"l", "w"⟩]]).symbol? "b" = some s ∧
          (table.linkAll [[⟨"l", "w"⟩]]).node? s = some node ∧ node.placeable = true := by
  have hmerge : ofTables millTables = .ok millBook := by cbv
  have hruns : ((millBook.flatten? 64).map fun table => (table.names, table.openNames,
      (table.linkAll [[⟨"l", "w"⟩]]).symbol? "l")) =
      some (["b", "m", "m 1"], ["w", "s"], some 5) := by cbv
  obtain ⟨table, hflatten, hordered, -, -, hlinked⟩ := exists_flatten?_coherent hmerge 64
  rw [hflatten, Option.map_some, Option.some.injEq, Prod.mk.injEq, Prod.mk.injEq] at hruns
  obtain ⟨hnames, hopen, hloft⟩ := hruns
  obtain ⟨hcoherent, hkeeps, hcontains, hmarked⟩ := hlinked [[⟨"l", "w"⟩]]
  refine ⟨hmerge, table, hflatten, hordered, hnames, hopen, hcoherent, hloft,
    hkeeps [[⟨"m", "b"⟩]] "l" 5 hloft, (hcontains "w").2 (Or.inr (by simp)), ?_⟩
  exact (hmarked "b").1 ⟨_, List.mem_cons_of_mem _ List.mem_cons_self, rfl, _,
    List.mem_cons_self⟩

end Rulebook

end Progression

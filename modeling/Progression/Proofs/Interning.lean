import Mathlib.Data.List.Nodup
import Progression.Flat

/-!
Symbols behind names. Tables are built by giving symbols to names and nodes to symbols; what
they mean is read by name. This file says what the two steps do to that reading: a new
symbol changes nothing, and a definition changes the node of one name.
-/

namespace Progression

namespace SymbolTable

theorem names_push (table : SymbolTable) (name : String) (h : table.get? name = none) :
    (table.push name h).names = table.names.push name := by
  cases table
  rfl

theorem get?_eq_none_iff {table : SymbolTable} {name : String} :
    table.get? name = none ↔ name ∉ table.names.toList := by
  rw [get?_eq_idxOf?, List.idxOf?_eq_none_iff]

/-- Interning adds a name that is new and nothing else. -/
theorem names_intern (table : SymbolTable) (name : String) :
    (table.intern name).1.names.toList =
      if name ∈ table.names.toList then table.names.toList else table.names.toList ++ [name] := by
  unfold intern
  split
  case h_1 s h =>
      have hmem : name ∈ table.names.toList := by
        by_contra hnot
        rw [get?_eq_none_iff.2 hnot] at h
        contradiction
      rw [if_pos hmem]
  case h_2 h => rw [if_neg (get?_eq_none_iff.1 h), names_push, Array.toList_push]

/-- A name that is there is not added. -/
theorem intern_of_mem {table : SymbolTable} {name : String} (h : name ∈ table.names.toList) :
    (table.intern name).1 = table := by
  unfold intern
  split
  case h_1 => rfl
  case h_2 hnone => exact absurd h (get?_eq_none_iff.1 hnone)

theorem prefix_intern (table : SymbolTable) (name : String) :
    table.names.toList <+: (table.intern name).1.names.toList := by
  rw [names_intern]
  split
  · exact List.prefix_refl _
  · exact List.prefix_append _ _

theorem nodup_intern {table : SymbolTable} (h : table.names.toList.Nodup) (name : String) :
    (table.intern name).1.names.toList.Nodup := by
  rw [names_intern]
  split
  case isTrue => exact h
  case isFalse hnew =>
      rw [← List.concat_eq_append]
      exact h.concat hnew

/-- The symbol that is returned is the place of the name. -/
@[simp] theorem getElem?_intern (table : SymbolTable) (name : String) :
    (table.intern name).1.names.toList[(table.intern name).2]? = some name := by
  unfold intern
  split
  case h_1 s h =>
      rw [get?_eq_idxOf?, List.idxOf?, List.findIdx?_eq_some_iff_getElem] at h
      obtain ⟨hlt, heq, -⟩ := h
      rw [List.getElem?_eq_getElem hlt, beq_iff_eq.1 heq]
  case h_2 h =>
      rw [names_push, Array.toList_push, ← Array.length_toList, List.getElem?_concat_length]

/-- If no name stands twice, symbols and names determine each other. -/
theorem get?_eq_some_iff {table : SymbolTable} (hnodup : table.names.toList.Nodup)
    {name : String} {s : Symbol} :
    table.get? name = some s ↔ table.names.toList[s]? = some name := by
  rw [get?_eq_idxOf?, List.idxOf?, List.findIdx?_eq_some_iff_getElem]
  constructor
  · rintro ⟨hlt, heq, -⟩
    rw [List.getElem?_eq_getElem hlt, beq_iff_eq.1 heq]
  · intro h
    obtain ⟨hlt, heq⟩ := List.getElem?_eq_some_iff.1 h
    refine ⟨hlt, beq_iff_eq.2 heq, fun j hj => ?_⟩
    rw [Bool.not_eq_true, beq_eq_false_iff_ne, ← heq]
    exact fun hsame => Nat.ne_of_lt hj ((hnodup.getElem_inj_iff).1 hsame)

theorem name_eq_getElem? (table : SymbolTable) (s : Symbol) :
    table.name s = (table.names.toList[s]?).getD "" := by
  rw [name, Array.getD_eq_getD_getElem?, Array.getElem?_toList]

theorem size_eq_length (table : SymbolTable) : table.size = table.names.toList.length := by
  rw [size, Array.length_toList]

theorem name_eq {table : SymbolTable} {name : String} {s : Symbol}
    (h : table.names.toList[s]? = some name) : table.name s = name := by
  rw [name_eq_getElem?, h]
  rfl

theorem getElem?_name {table : SymbolTable} {s : Symbol} (h : s < table.size) :
    table.names.toList[s]? = some (table.name s) := by
  rw [size_eq_length] at h
  rw [name_eq_getElem?, List.getElem?_eq_getElem h]
  rfl

theorem name_mem {table : SymbolTable} {s : Symbol} (h : s < table.size) :
    table.name s ∈ table.names.toList :=
  List.mem_of_getElem? (getElem?_name h)

theorem name_inj {table : SymbolTable} (hnodup : table.names.toList.Nodup) {s t : Symbol}
    (hs : s < table.size) (ht : t < table.size) (h : table.name s = table.name t) : s = t := by
  have hget := (get?_eq_some_iff hnodup).2 (getElem?_name hs)
  rw [h, (get?_eq_some_iff hnodup).2 (getElem?_name ht)] at hget
  exact (Option.some.inj hget).symm

theorem size_le_of_isPrefix {table table' : SymbolTable}
    (h : table.names.toList <+: table'.names.toList) : table.size ≤ table'.size := by
  rw [size_eq_length, size_eq_length]
  exact h.length_le

/-- Symbols keep their names when others come. -/
theorem name_of_isPrefix {table table' : SymbolTable}
    (h : table.names.toList <+: table'.names.toList) {s : Symbol} (hs : s < table.size) :
    table'.name s = table.name s := by
  obtain ⟨more, hmore⟩ := h
  apply name_eq
  rw [← hmore, List.getElem?_append_left (by rwa [← size_eq_length]), getElem?_name hs]

end SymbolTable

/-- A node of a table with names in place of symbols. -/
structure NamedNode where
  kind : Kind
  parents : List String
  placements : List String
  source : String
  placeable : Bool
  deriving Repr, DecidableEq

namespace FlatNode

def sources (node : FlatNode) : List Symbol :=
  node.parents ++ node.placements

end FlatNode

namespace NamedNode

def sources (node : NamedNode) : List String :=
  node.parents ++ node.placements

end NamedNode

attribute [ext] FlatTable

namespace FlatTable

/-- The names that have a symbol, in the order of their symbols. -/
def vocabulary (table : FlatTable) : List String :=
  table.symbols.names.toList

def toNamed (table : FlatTable) (node : FlatNode) : NamedNode :=
  ⟨node.kind, node.parents.map table.name, node.placements.map table.name, node.source,
    node.placeable⟩

def named? (table : FlatTable) (name : String) : Option NamedNode :=
  (table.get? name).map table.toNamed

/-- What every table keeps to, whatever is defined in it. -/
structure WellFormed (table : FlatTable) : Prop where
  vocabulary_nodup : table.vocabulary.Nodup
  nodes_size : table.nodes.size = table.symbols.size
  /-- Nodes mention symbols that have been given. -/
  sources_lt : ∀ s node, table.node? s = some node → ∀ p ∈ node.sources, p < table.symbols.size
  placements_nodup : ∀ s node, table.node? s = some node → node.placements.Nodup

theorem wellFormed_empty (stats : FlattenStats) : WellFormed { stats } where
  vocabulary_nodup := List.nodup_nil
  nodes_size := rfl
  sources_lt := by simp [node?]
  placements_nodup := by simp [node?]

namespace WellFormed

variable {table : FlatTable}

theorem lt_of_node? (h : table.WellFormed) {s : Symbol} {node : FlatNode}
    (hnode : table.node? s = some node) : s < table.symbols.size := by
  rw [← h.nodes_size]
  by_contra hnot
  rw [node?, Array.getElem?_eq_none (Nat.le_of_not_lt hnot)] at hnode
  contradiction

theorem symbol?_eq_some_iff (h : table.WellFormed) {name : String} {s : Symbol} :
    table.symbol? name = some s ↔ s < table.symbols.size ∧ table.name s = name := by
  rw [symbol?, SymbolTable.get?_eq_some_iff h.vocabulary_nodup]
  constructor
  · intro hget
    refine ⟨?_, SymbolTable.name_eq hget⟩
    rw [SymbolTable.size_eq_length]
    exact (List.getElem?_eq_some_iff.1 hget).1
  · rintro ⟨hlt, rfl⟩
    exact SymbolTable.getElem?_name hlt

theorem get?_name (h : table.WellFormed) {s : Symbol} (hs : s < table.symbols.size) :
    table.get? (table.name s) = table.node? s := by
  rw [get?, h.symbol?_eq_some_iff.2 ⟨hs, rfl⟩, Option.bind_some]

theorem named?_name (h : table.WellFormed) {s : Symbol} (hs : s < table.symbols.size) :
    table.named? (table.name s) = (table.node? s).map table.toNamed := by
  rw [named?, h.get?_name hs]

theorem named?_eq_some_iff (h : table.WellFormed) {name : String} {node : NamedNode} :
    table.named? name = some node ↔
      ∃ s n, table.node? s = some n ∧ table.name s = name ∧ table.toNamed n = node := by
  constructor
  · intro hnamed
    obtain ⟨n, hget, hn⟩ := Option.map_eq_some_iff.1 hnamed
    obtain ⟨s, hs, hnode⟩ := Option.bind_eq_some_iff.1 hget
    exact ⟨s, n, hnode, (h.symbol?_eq_some_iff.1 hs).2, hn⟩
  · rintro ⟨s, n, hnode, rfl, rfl⟩
    rw [h.named?_name (h.lt_of_node? hnode), hnode]
    rfl

/-- A symbol's name is mentioned where the symbol is. -/
theorem name_mem_map_iff (h : table.WellFormed) {l : List Symbol}
    (hl : ∀ p ∈ l, p < table.symbols.size) {s : Symbol} (hs : s < table.symbols.size) :
    table.name s ∈ l.map table.name ↔ s ∈ l := by
  rw [List.mem_map]
  constructor
  · rintro ⟨p, hp, heq⟩
    rwa [← SymbolTable.name_inj h.vocabulary_nodup (hl p hp) hs heq]
  · exact fun hmem => ⟨s, hmem, rfl⟩

end WellFormed

/-! ### The nodes of a table -/

section Entries

variable {table : FlatTable}

@[simp] theorem mem_defined_iff {s : Symbol} {node : FlatNode} :
    (s, node) ∈ table.defined ↔ table.node? s = some node := by
  rw [defined, List.mem_filterMap]
  constructor
  · rintro ⟨⟨found, t⟩, hmem, hmap⟩
    obtain ⟨n, rfl, hpair⟩ := Option.map_eq_some_iff.1 hmap
    obtain ⟨rfl, rfl⟩ := Prod.mk.inj hpair
    rw [List.mem_zipIdx_iff_getElem?, Array.getElem?_toList] at hmem
    rw [node?, hmem]
    rfl
  · intro h
    refine ⟨(some node, s), ?_, rfl⟩
    rw [List.mem_zipIdx_iff_getElem?, Array.getElem?_toList]
    exact Option.join_eq_some_iff.1 h

/-- The nodes with their names, in the order of their symbols. -/
def entries (table : FlatTable) : List (String × NamedNode) :=
  table.defined.map fun (s, node) => (table.name s, table.toNamed node)

theorem WellFormed.mem_entries_iff (h : table.WellFormed) {name : String} {node : NamedNode} :
    (name, node) ∈ table.entries ↔ table.named? name = some node := by
  rw [entries, List.mem_map, h.named?_eq_some_iff]
  constructor
  · rintro ⟨⟨s, n⟩, hmem, heq⟩
    obtain ⟨hname, hnode⟩ := Prod.mk.inj heq
    exact ⟨s, n, mem_defined_iff.1 hmem, hname, hnode⟩
  · rintro ⟨s, n, hn, hname, hnode⟩
    exact ⟨(s, n), mem_defined_iff.2 hn, Prod.ext hname hnode⟩

/-- Numbering the present members of a list keeps the numbers apart. -/
theorem sublist_range'_numbered {α : Type} (l : List (Option α)) (k : Nat) :
    (((l.zipIdx k).filterMap fun (x, j) => x.map (j, ·)).map Prod.fst).Sublist
      (List.range' k l.length) := by
  induction l generalizing k with
  | nil => exact List.Sublist.refl _
  | cons x l ih =>
      rw [List.zipIdx_cons, List.length_cons, List.range'_succ, List.filterMap_cons]
      cases x with
      | none => exact (ih (k + 1)).cons k
      | some a => exact (ih (k + 1)).cons_cons k

theorem length_numbered {α : Type} (l : List (Option α)) (k : Nat) :
    ((l.zipIdx k).filterMap fun (x, j) => x.map (j, ·)).length = l.countP Option.isSome := by
  induction l generalizing k with
  | nil => rfl
  | cons x l ih =>
      rw [List.zipIdx_cons, List.filterMap_cons]
      cases x with
      | none => simp [ih]
      | some a => simp [ih]

@[simp] theorem length_defined (table : FlatTable) : table.defined.length = table.size := by
  rw [defined, length_numbered, size, Array.countP_toList]

/-- No name has two nodes. -/
theorem WellFormed.nodup_entries (h : table.WellFormed) :
    (table.entries.map Prod.fst).Nodup := by
  have hsymbols : (table.defined.map Prod.fst).Nodup :=
    (sublist_range'_numbered table.nodes.toList 0).nodup List.nodup_range'
  have hnames : table.entries.map Prod.fst = (table.defined.map Prod.fst).map table.name := by
    rw [entries, List.map_map, List.map_map]
    rfl
  rw [hnames]
  refine List.Nodup.map_on (fun s hs t ht heq => ?_) hsymbols
  obtain ⟨⟨s', n⟩, hmem, rfl⟩ := List.mem_map.1 hs
  obtain ⟨⟨t', m⟩, hmem', rfl⟩ := List.mem_map.1 ht
  exact SymbolTable.name_inj h.vocabulary_nodup (h.lt_of_node? (mem_defined_iff.1 hmem))
    (h.lt_of_node? (mem_defined_iff.1 hmem')) heq

end Entries

/-! ### Interning -/

section Intern

variable {table : FlatTable}

@[simp] theorem symbols_intern (table : FlatTable) (name : String) :
    (table.intern name).1.symbols = (table.symbols.intern name).1 := by
  cases table
  rfl

@[simp] theorem stats_intern (table : FlatTable) (name : String) :
    (table.intern name).1.stats = table.stats := by
  cases table
  rfl

theorem intern_snd (table : FlatTable) (name : String) :
    (table.intern name).2 = (table.symbols.intern name).2 := by
  cases table
  rfl

theorem vocabulary_intern (table : FlatTable) (name : String) :
    (table.intern name).1.vocabulary =
      if name ∈ table.vocabulary then table.vocabulary else table.vocabulary ++ [name] := by
  rw [vocabulary, symbols_intern, SymbolTable.names_intern]
  rfl

theorem prefix_vocabulary_intern (table : FlatTable) (name : String) :
    table.vocabulary <+: (table.intern name).1.vocabulary := by
  rw [vocabulary, vocabulary, symbols_intern]
  exact SymbolTable.prefix_intern _ _

@[simp] theorem mem_vocabulary_intern {name other : String} :
    other ∈ (table.intern name).1.vocabulary ↔ other = name ∨ other ∈ table.vocabulary := by
  rw [vocabulary_intern]
  split
  case isTrue hold =>
      refine ⟨Or.inr, ?_⟩
      rintro (rfl | hmem)
      · exact hold
      · exact hmem
  case isFalse hnew => rw [List.mem_append, List.mem_singleton, or_comm]

theorem lt_intern (table : FlatTable) (name : String) :
    (table.intern name).2 < (table.intern name).1.symbols.size := by
  rw [intern_snd, symbols_intern, SymbolTable.size_eq_length]
  exact (List.getElem?_eq_some_iff.1 (SymbolTable.getElem?_intern _ _)).1

@[simp] theorem name_intern (table : FlatTable) (name : String) :
    (table.intern name).1.name (table.intern name).2 = name := by
  rw [FlatTable.name, intern_snd, symbols_intern]
  exact SymbolTable.name_eq (SymbolTable.getElem?_intern _ _)

theorem nodes_intern (table : FlatTable) (name : String) :
    (table.intern name).1.nodes =
      if table.nodes.size < (table.intern name).1.symbols.size then table.nodes.push none
      else table.nodes := by
  cases table
  rfl

/-- A new symbol has no node. -/
@[simp] theorem node?_intern (table : FlatTable) (name : String) (s : Symbol) :
    (table.intern name).1.node? s = table.node? s := by
  rw [node?, nodes_intern, node?]
  split
  · rw [Array.getElem?_push]
    split
    case isTrue heq =>
        rw [Array.getElem?_eq_none (Nat.le_of_eq heq.symm)]
        rfl
    case isFalse => rfl
  · rfl

theorem size_intern (table : FlatTable) (name : String) :
    (table.intern name).1.symbols.size = table.symbols.size ∨
      (table.intern name).1.symbols.size = table.symbols.size + 1 := by
  have h := vocabulary_intern table name
  rw [SymbolTable.size_eq_length, SymbolTable.size_eq_length]
  show (table.intern name).1.vocabulary.length = table.vocabulary.length ∨
    (table.intern name).1.vocabulary.length = table.vocabulary.length + 1
  rw [h]
  split
  · exact Or.inl rfl
  · exact Or.inr (by rw [List.length_append, List.length_singleton])

theorem WellFormed.intern (h : table.WellFormed) (name : String) :
    (table.intern name).1.WellFormed where
  vocabulary_nodup := by
    rw [vocabulary, symbols_intern]
    exact SymbolTable.nodup_intern h.vocabulary_nodup name
  nodes_size := by
    rw [nodes_intern]
    have hsize := h.nodes_size
    rcases size_intern table name with hsame | hmore
    · rw [if_neg (by omega)]
      omega
    · rw [if_pos (by omega), Array.size_push]
      omega
  sources_lt := by
    intro s node hnode p hp
    rw [node?_intern] at hnode
    exact Nat.lt_of_lt_of_le (h.sources_lt s node hnode p hp)
      (SymbolTable.size_le_of_isPrefix (prefix_vocabulary_intern table name))
  placements_nodup := by
    intro s node hnode
    rw [node?_intern] at hnode
    exact h.placements_nodup s node hnode

/-- Nodes mean the same in a table with more symbols. -/
theorem toNamed_of_isPrefix {table' : FlatTable} (hgrown : table.vocabulary <+: table'.vocabulary)
    {node : FlatNode} (hlt : ∀ p ∈ node.sources, p < table.symbols.size) :
    table'.toNamed node = table.toNamed node := by
  have hname : ∀ p ∈ node.sources, table'.name p = table.name p :=
    fun p hp => SymbolTable.name_of_isPrefix hgrown (hlt p hp)
  have hparents : node.parents.map table'.name = node.parents.map table.name :=
    List.map_congr_left fun p hp => hname p (List.mem_append_left _ hp)
  have hplacements : node.placements.map table'.name = node.placements.map table.name :=
    List.map_congr_left fun p hp => hname p (List.mem_append_right _ hp)
  rw [toNamed, toNamed, hparents, hplacements]

/-- Interning changes no node. -/
theorem named?_intern (h : table.WellFormed) (name : String) :
    (table.intern name).1.named? = table.named? := by
  have hgrown := prefix_vocabulary_intern table name
  funext other
  apply Option.ext
  intro node
  rw [h.named?_eq_some_iff, (h.intern name).named?_eq_some_iff]
  refine exists_congr fun s => exists_congr fun n => ?_
  rw [node?_intern]
  refine and_congr_right fun hnode => ?_
  rw [toNamed_of_isPrefix hgrown (h.sources_lt s n hnode)]
  have hname : (table.intern name).1.name s = table.name s :=
    SymbolTable.name_of_isPrefix hgrown (h.lt_of_node? hnode)
  rw [hname]

/-- Interning a name that has a symbol changes nothing. -/
theorem intern_of_mem (h : table.WellFormed) {name : String} (hmem : name ∈ table.vocabulary) :
    (table.intern name).1 = table := by
  have hsymbols : (table.intern name).1.symbols = table.symbols := by
    rw [symbols_intern, SymbolTable.intern_of_mem hmem]
  have hnodes : (table.intern name).1.nodes = table.nodes := by
    rw [nodes_intern, hsymbols, if_neg (Nat.not_lt_of_le (Nat.le_of_eq h.nodes_size.symm))]
  exact FlatTable.ext hsymbols hnodes (stats_intern table name)

end Intern

/-! ### Interning several names -/

section InternAll

@[simp] theorem internAll_cons (table : FlatTable) (name : String) (names : List String) :
    table.internAll (name :: names) =
      (((table.intern name).1.internAll names).1,
        (table.intern name).2 :: ((table.intern name).1.internAll names).2) := rfl

theorem prefix_vocabulary_internAll (names : List String) (table : FlatTable) :
    table.vocabulary <+: (table.internAll names).1.vocabulary := by
  induction names generalizing table with
  | nil => exact List.prefix_refl _
  | cons name names ih =>
      rw [internAll_cons]
      exact (prefix_vocabulary_intern table name).trans (ih _)

@[simp]
theorem mem_vocabulary_internAll {other : String} (names : List String) (table : FlatTable) :
    other ∈ (table.internAll names).1.vocabulary ↔ other ∈ names ∨ other ∈ table.vocabulary := by
  induction names generalizing table with
  | nil => simp [internAll]
  | cons name names ih =>
      rw [internAll_cons, ih, mem_vocabulary_intern, List.mem_cons]
      tauto

@[simp] theorem stats_internAll (names : List String) (table : FlatTable) :
    (table.internAll names).1.stats = table.stats := by
  induction names generalizing table with
  | nil => rfl
  | cons name names ih => rw [internAll_cons, ih, stats_intern]

theorem WellFormed.internAll (names : List String) {table : FlatTable} (h : table.WellFormed) :
    (table.internAll names).1.WellFormed := by
  induction names generalizing table with
  | nil => exact h
  | cons name names ih => exact ih (h.intern name)

theorem named?_internAll (names : List String) {table : FlatTable} (h : table.WellFormed) :
    (table.internAll names).1.named? = table.named? := by
  induction names generalizing table with
  | nil => rfl
  | cons name names ih => rw [internAll_cons, ih (h.intern name), named?_intern h]

theorem lt_internAll (names : List String) (table : FlatTable) :
    ∀ s ∈ (table.internAll names).2, s < (table.internAll names).1.symbols.size := by
  induction names generalizing table with
  | nil => simp [FlatTable.internAll]
  | cons name names ih =>
      intro s hs
      rw [internAll_cons] at hs ⊢
      rcases List.mem_cons.1 hs with rfl | hs
      · exact Nat.lt_of_lt_of_le (lt_intern table name)
          (SymbolTable.size_le_of_isPrefix (prefix_vocabulary_internAll names _))
      · exact ih _ s hs

@[simp] theorem map_name_internAll (names : List String) (table : FlatTable) :
    (table.internAll names).2.map (table.internAll names).1.name = names := by
  induction names generalizing table with
  | nil => rfl
  | cons name names ih =>
      rw [internAll_cons, List.map_cons, ih]
      have hname := SymbolTable.name_of_isPrefix
        (prefix_vocabulary_internAll names (table.intern name).1) (lt_intern table name)
      exact congrArg (· :: names) (hname.trans (name_intern table name))

end InternAll

/-! ### Defining -/

section Define

variable {table : FlatTable} {s : Symbol} {node : FlatNode}

theorem node?_define (h : table.WellFormed) (hs : s < table.symbols.size) (t : Symbol) :
    (table.define s node).node? t = if t = s then some node else table.node? t := by
  show ((table.nodes.setIfInBounds s (some node))[t]?).join = _
  rw [Array.getElem?_setIfInBounds]
  by_cases hts : t = s
  · subst hts
    rw [if_pos rfl, if_pos rfl, if_pos (by rwa [h.nodes_size])]
    rfl
  · rw [if_neg (Ne.symm hts), if_neg hts]
    rfl

theorem WellFormed.define (h : table.WellFormed) (hs : s < table.symbols.size)
    (hsources : ∀ p ∈ node.sources, p < table.symbols.size) (hplaced : node.placements.Nodup) :
    (table.define s node).WellFormed where
  vocabulary_nodup := h.vocabulary_nodup
  nodes_size := by
    show (table.nodes.setIfInBounds s (some node)).size = _
    rw [Array.size_setIfInBounds]
    exact h.nodes_size
  sources_lt := by
    intro t n hn
    rw [node?_define h hs] at hn
    split at hn
    · obtain rfl := Option.some.inj hn
      exact hsources
    · exact h.sources_lt t n hn
  placements_nodup := by
    intro t n hn
    rw [node?_define h hs] at hn
    split at hn
    · obtain rfl := Option.some.inj hn
      exact hplaced
    · exact h.placements_nodup t n hn

/-- A definition changes the node of one name. -/
theorem named?_define (h : table.WellFormed) (hs : s < table.symbols.size) (name : String) :
    (table.define s node).named? name =
      if name = table.name s then some (table.toNamed node) else table.named? name := by
  show ((table.symbol? name).bind (table.define s node).node?).map table.toNamed = _
  by_cases hname : name = table.name s
  · rw [if_pos hname, h.symbol?_eq_some_iff.2 ⟨hs, hname.symm⟩, Option.bind_some,
      node?_define h hs, if_pos rfl]
    rfl
  · rw [if_neg hname, named?, get?]
    cases hsymbol : table.symbol? name with
    | none => rfl
    | some t =>
        have hts : t ≠ s := by
          rintro rfl
          exact hname (h.symbol?_eq_some_iff.1 hsymbol).2.symm
        rw [Option.bind_some, Option.bind_some, node?_define h hs, if_neg hts]

end Define

end FlatTable

end Progression

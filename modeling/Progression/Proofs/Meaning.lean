import Progression.Proofs.Solving

/-!
What the rules mean as they were written, with gates inside gates and placements beside them.
Main statement: compiling, linking, freezing and solving find what the rules mean, provided
that no record uses a name that flattening gave.

The meaning is the least set of names and gates that has the items and is closed under the
rules. A gate of its own meaning stands behind every given name, so that the sets that are
closed under the rules of the table and those that are closed under the written ones can be
turned into each other.
-/

namespace Progression

/-- Rules as they were written, and where items have been put. -/
structure Authored where
  tables : List Table
  records : List Placement

namespace Authored

variable {w : Authored} {difficulty : Difficulty} {isOpen isOpen' : Parent → Bool}
  {inventory : Inventory}

/-! ### Reading rules as they were written -/

/-- The names that a table defines. -/
def names (w : Authored) : List String :=
  (w.tables.flatMap Table.entries).map Prod.fst

def treasures (w : Authored) : List String :=
  w.records.map Placement.treasure

def gate? (w : Authored) (name : String) : Option Gate :=
  ((w.tables.flatMap Table.entries).find? (·.1 == name)).map Prod.snd

def parents (w : Authored) (name : String) : List Parent :=
  ((w.gate? name).map Gate.parents).getD []

/-- The places where the item of a name has been put, each once. -/
def placements (w : Authored) (name : String) : List Parent :=
  (Placement.locations w.records name).dedup.map .named

/-- What a count gate counts: the parents of its first parent, by occurrence, then the
placements that are not among them. -/
def producers (w : Authored) : List Parent → List Parent
  | [] => []
  | .named name :: _ => w.parents name ++ (w.placements name).filter (· ∉ w.parents name)
  | .inline _ parents :: _ => parents

/-- The rule of a name or of a gate written in place, given what is open. -/
def holds (w : Authored) (difficulty : Difficulty) (isOpen : Parent → Bool) : Parent → Bool
  | .named name =>
    match w.gate? name with
    | some gate =>
      gate.kind.opensPlaced difficulty isOpen gate.parents (w.producers gate.parents)
        (w.placements name)
    | none => (w.placements name).any isOpen
  | .inline kind parents => kind.opens difficulty isOpen parents (w.producers parents)

/-- In the least set that has the items and is closed under the rules. -/
def Reaches (w : Authored) (difficulty : Difficulty) (inventory : Inventory) (p : Parent) : Prop :=
  ∀ isOpen : Parent → Bool, (∀ item ∈ inventory.items, isOpen (.named item) = true) →
    (∀ q, w.holds difficulty isOpen q = true → isOpen q = true) → isOpen p = true

theorem holds_mono (hle : ∀ p, isOpen p = true → isOpen' p = true) {p : Parent}
    (h : w.holds difficulty isOpen p = true) : w.holds difficulty isOpen' p = true := by
  cases p with
  | named name =>
      rw [holds] at h ⊢
      cases hgate : w.gate? name with
      | some gate =>
          rw [hgate] at h
          exact Kind.opensPlaced_mono hle h
      | none =>
          simp only [hgate, List.any_eq_true] at h ⊢
          obtain ⟨p, hp, hopen⟩ := h
          exact ⟨p, hp, hle p hopen⟩
  | inline kind parents => exact Kind.opens_mono hle h

open Classical in
/-- What is reached is reached by an item or by its own rule. -/
theorem reaches_iff {p : Parent} :
    w.Reaches difficulty inventory p ↔ (∃ item ∈ inventory.items, p = .named item) ∨
      w.holds difficulty (fun q => decide (w.Reaches difficulty inventory q)) p = true := by
  have hclosed : ∀ q, w.holds difficulty (fun q => decide (w.Reaches difficulty inventory q)) q =
      true → w.Reaches difficulty inventory q := by
    intro q hq isOpen hitems hrules
    refine hrules q (holds_mono (fun p hp => ?_) hq)
    have hp' : w.Reaches difficulty inventory p := of_decide_eq_true hp
    exact hp' isOpen hitems hrules
  constructor
  · intro hreaches
    -- One step from the least closed set is closed and has the items.
    have hstep := hreaches (fun q => decide ((∃ item ∈ inventory.items, q = .named item) ∨
      w.holds difficulty (fun q => decide (w.Reaches difficulty inventory q)) q = true)) ?_ ?_
    · exact of_decide_eq_true hstep
    · exact fun item hitem => decide_eq_true (Or.inl ⟨item, hitem, rfl⟩)
    · intro q hq
      refine decide_eq_true (Or.inr (holds_mono (fun p hp => ?_) hq))
      rcases of_decide_eq_true hp with ⟨item, hitem, rfl⟩ | hrule
      · exact decide_eq_true fun isOpen hitems _ => hitems item hitem
      · exact decide_eq_true (hclosed p hrule)
  · rintro (⟨item, hitem, rfl⟩ | hrule)
    · exact fun isOpen hitems _ => hitems item hitem
    · exact hclosed p hrule

/-! ### Tables that mean what was written -/

/-- What a name of a table reads as, if `meaning` says what its names stand for. -/
inductive Reads (w : Authored) (table : FlatTable) (meaning : String → Parent)
    (name : String) : Prop
  | inline (node : NamedNode) : table.named? name = some node → node.placements = [] →
      meaning name = .inline node.kind (node.parents.map meaning) → Reads w table meaning name
  | rule (node : NamedNode) (gate : Gate) : table.named? name = some node →
      meaning name = .named name → w.gate? name = some gate → node.kind = gate.kind →
      node.parents.map meaning = gate.parents →
      (node.placements.map meaning).Perm (w.placements name) → Reads w table meaning name
  | treasure (node : NamedNode) : table.named? name = some node → meaning name = .named name →
      w.gate? name = none → node.parents = [] → node.placements ≠ [] →
      (node.placements.map meaning).Perm (w.placements name) → Reads w table meaning name
  | unknown : table.named? name = none → meaning name = .named name → w.gate? name = none →
      w.placements name = [] → Reads w table meaning name

variable {table : FlatTable} {meaning : String → Parent}

/-- Only the name itself stands for a name. -/
theorem Reads.eq_of_named {name other : String} (h : w.Reads table meaning name)
    (heq : meaning name = .named other) : name = other := by
  have hself : meaning name = .named name → name = other := by
    intro hname
    rw [hname] at heq
    exact Parent.named.inj heq
  cases h with
  | inline node _ _ hmeaning =>
      rw [hmeaning] at heq
      contradiction
  | rule node gate _ hmeaning => exact hself hmeaning
  | treasure node _ hmeaning => exact hself hmeaning
  | unknown _ hmeaning => exact hself hmeaning

/-- Placements that are not parents read as placements that are not parents. -/
theorem map_filter_placements (hreads : ∀ name, w.Reads table meaning name) {name : String}
    {node : NamedNode} {parents : List Parent} (hparents : node.parents.map meaning = parents)
    (hperm : (node.placements.map meaning).Perm (w.placements name)) :
    ((node.placements.filter (· ∉ node.parents)).map meaning).Perm
      ((w.placements name).filter (· ∉ parents)) := by
  refine List.Perm.trans (.of_eq ?_) (hperm.filter _)
  rw [List.filter_map]
  congr 1
  refine List.filter_congr fun p hp => ?_
  obtain ⟨location, -, hlocation⟩ :=
    List.mem_map.1 (hperm.mem_iff.1 (List.mem_map_of_mem hp))
  -- Placements read as names, and a name is read by no other name.
  have hiff : p ∈ node.parents ↔ meaning p ∈ parents := by
    rw [← hparents, List.mem_map]
    constructor
    · exact fun hmem => ⟨p, hmem, rfl⟩
    · rintro ⟨q, hq, heq⟩
      have hqName := (hreads q).eq_of_named (heq.trans hlocation.symm)
      have hpName := (hreads p).eq_of_named hlocation.symm
      rw [hpName, ← hqName]
      exact hq
  simp only [Function.comp_apply, hiff]

/-- Producers in the table read as producers of what was written. -/
theorem map_producersOf (hreads : ∀ name, w.Reads table meaning name) (parents : List String) :
    ((table.producersOf parents).map meaning).Perm (w.producers (parents.map meaning)) := by
  cases parents with
  | nil => exact List.Perm.refl _
  | cons resource rest =>
      rw [List.map_cons, FlatTable.producersOf]
      cases hreads resource with
      | inline node hnode hplaced hmeaning =>
          -- Nothing is placed on a gate, so its producers are its parents.
          rw [hnode, hmeaning, producers]
          simp [hplaced]
      | rule node gate hnode hmeaning hgate hkind hparents hperm =>
          have hwritten : w.parents resource = gate.parents := by
            rw [Authored.parents, hgate]
            rfl
          rw [hnode, hmeaning, producers, List.map_append, hwritten, hparents]
          exact (map_filter_placements hreads hparents hperm).append_left _
      | treasure node hnode hmeaning hgate hempty _ hperm =>
          have hwritten : w.parents resource = node.parents.map meaning := by
            rw [Authored.parents, hgate, hempty]
            rfl
          rw [hnode, hmeaning, producers, List.map_append, hwritten]
          exact (map_filter_placements hreads rfl hperm).append_left _
      | unknown hnode hmeaning hgate hplaced =>
          have hwritten : w.parents resource = [] := by
            rw [Authored.parents, hgate]
            rfl
          rw [hnode, hmeaning, producers, hplaced, hwritten]
          exact List.Perm.refl _

/-- The rule of a name in the table is the rule of what the name stands for. -/
theorem opens_eq_holds (hreads : ∀ name, w.Reads table meaning name) (name : String) :
    table.opens difficulty (fun n => isOpen (meaning n)) name =
      w.holds difficulty isOpen (meaning name) := by
  have hnode : ∀ node, table.named? name = some node →
      table.opens difficulty (fun n => isOpen (meaning n)) name =
        node.kind.opensPlaced difficulty isOpen (node.parents.map meaning)
          (w.producers (node.parents.map meaning)) (node.placements.map meaning) := by
    intro node hnode
    rw [FlatTable.opens, hnode, Option.any_some]
    refine (Kind.opensPlaced_map _ _ isOpen meaning _ _ _).symm.trans ?_
    exact Kind.opensPlaced_perm (map_producersOf hreads node.parents) (List.Perm.refl _)
  cases hreads name with
  | inline node hnamed hplaced hmeaning =>
      rw [hnode node hnamed, hmeaning, holds, hplaced]
      simp [Kind.opensPlaced]
  | rule node gate hnamed hmeaning hgate hkind hparents hperm =>
      rw [hnode node hnamed, hmeaning, holds, hgate, hparents, hkind]
      exact Kind.opensPlaced_perm (List.Perm.refl _) hperm
  | treasure node hnamed hmeaning hgate hempty hplaced hperm =>
      rw [hnode node hnamed, hmeaning, holds, hgate, hempty, Kind.opensPlaced, hperm.any_eq]
      simp [hplaced]
  | unknown hnamed hmeaning hgate hplaced =>
      rw [FlatTable.opens, hnamed, hmeaning, holds, hgate, hplaced]
      rfl

open Classical in
/-- A name is in the least closed set of the table exactly if it is reached. -/
theorem reaches_iff_opens (hreads : ∀ name, w.Reads table meaning name)
    (hitems : ∀ item ∈ inventory.items, meaning item = .named item) {name : String}
    (hname : meaning name = .named name) :
    (∀ isOpen : String → Bool, (∀ item ∈ inventory.items, isOpen item = true) →
      (∀ n, table.opens difficulty isOpen n = true → isOpen n = true) → isOpen name = true) ↔
        w.Reaches difficulty inventory (.named name) := by
  constructor
  · intro hleast isOpen hhas hclosed
    rw [← hname]
    refine hleast (fun n => isOpen (meaning n)) ?_ ?_
    · intro item hitem
      rw [hitems item hitem]
      exact hhas item hitem
    · intro n hopen
      rw [opens_eq_holds hreads] at hopen
      exact hclosed _ hopen
  · intro hreaches isOpen hhas hclosed
    -- A gate counts as open only if all names that stand for it are.
    have hopen := hreaches (fun p => decide (∀ n, meaning n = p → isOpen n = true)) ?_ ?_
    · exact of_decide_eq_true hopen name hname
    · intro item hitem
      refine decide_eq_true fun n hn => ?_
      rw [(hreads n).eq_of_named hn]
      exact hhas item hitem
    · rintro p hp
      refine decide_eq_true ?_
      rintro n rfl
      rw [← opens_eq_holds hreads] at hp
      refine hclosed n (FlatTable.opens_mono (fun m hm => ?_) hp)
      have hall : ∀ n, meaning n = meaning m → isOpen n = true := of_decide_eq_true hm
      exact hall m rfl

/-! ### Linked tables mean what was written -/

variable {book : Rulebook}

theorem names_perm (hmerge : Rulebook.ofTables w.tables = .ok book) :
    book.names.Perm w.names := by
  refine ((Rulebook.rules_perm hmerge).map Rule.name).trans (.of_eq ?_)
  rw [names, List.map_flatMap, List.map_flatMap]
  refine List.flatMap_congr fun t _ => ?_
  rw [Table.rules, List.map_map]
  rfl

theorem gate?_of_mem (hmerge : Rulebook.ofTables w.tables = .ok book) {r : Rule}
    (hr : r ∈ book.rules) : w.gate? r.name = some r.gate := by
  obtain ⟨t, ht, hentry, -⟩ := Rulebook.exists_table hmerge hr
  have hmem : (r.name, r.gate) ∈ w.tables.flatMap Table.entries :=
    List.mem_flatMap.2 ⟨t, ht, hentry⟩
  have hnodup : ((w.tables.flatMap Table.entries).map Prod.fst).Nodup :=
    (names_perm hmerge).nodup_iff.1 (Rulebook.names_nodup hmerge)
  rw [gate?, Rulebook.find?_key_eq_some Prod.fst hnodup hmem]
  rfl

theorem gate?_eq_none_iff {name : String} : w.gate? name = none ↔ name ∉ w.names := by
  rw [gate?, Option.map_eq_none_iff, List.find?_eq_none, names, List.mem_map, not_exists]
  exact forall_congr' fun entry => by rw [beq_iff_eq, not_and]

/-- Every location is in the placements, once. -/
theorem placeAll_perm {name : String} {node : NamedNode} (hempty : node.placements = [])
    (hmeaning : ∀ l ∈ Placement.locations w.records name, meaning l = .named l) :
    ((node.placeAll (Placement.locations w.records name)).placements.map meaning).Perm
      (w.placements name) := by
  have hnodup : (node.placeAll (Placement.locations w.records name)).placements.Nodup :=
    NamedNode.nodup_placeAll _ (hempty ▸ List.nodup_nil)
  have hperm : (node.placeAll (Placement.locations w.records name)).placements.Perm
      (Placement.locations w.records name).dedup := by
    refine (List.perm_ext_iff_of_nodup hnodup (List.nodup_dedup _)).2 fun l => ?_
    rw [NamedNode.mem_placeAll_iff, hempty, List.mem_dedup]
    simp
  refine (hperm.map meaning).trans (.of_eq ?_)
  exact List.map_congr_left fun l hl => hmeaning l (List.mem_dedup.1 hl)

/-- What a name of the flat table stands for, with all gates back in their places. -/
def meaningOf (book : Rulebook) (table : FlatTable) : String → Parent :=
  table.standsFor book.made table.stats.rounds

theorem meaningOf_of_notMem (table : FlatTable) {name : String} (h : name ∉ book.made) :
    meaningOf book table name = .named name :=
  Rulebook.standsFor_of_notMem table h _

/-- No record uses a name that was given to a gate. -/
def IsClean (w : Authored) (book : Rulebook) : Prop :=
  ∀ record ∈ w.records, record.location ∉ book.made ∧ record.treasure ∉ book.made

theorem IsClean.meaningOf_location (h : w.IsClean book) (table : FlatTable) {name : String} :
    ∀ l ∈ Placement.locations w.records name, meaningOf book table l = .named l := by
  intro l hl
  obtain ⟨record, hrecord, rfl⟩ := List.mem_map.1 hl
  exact meaningOf_of_notMem table (h record (List.mem_of_mem_filter hrecord)).1

theorem IsClean.locations_eq_nil (h : w.IsClean book) {name : String} (hname : name ∈ book.made) :
    Placement.locations w.records name = [] := by
  rw [List.eq_nil_iff_forall_not_mem]
  intro l hl
  obtain ⟨record, hrecord, -⟩ := List.mem_map.1 hl
  obtain ⟨hrecord, htreasure⟩ := List.mem_filter.1 hrecord
  exact (h record hrecord).2 (beq_iff_eq.1 htreasure ▸ hname)

theorem reads_link_of_made (h : book.Tabulates table) (hclean : w.IsClean book) {name : String}
    (hname : name ∈ book.made) :
    w.Reads (table.link w.records).1 (meaningOf book table) name := by
  obtain ⟨node, hnode, hempty, hinline⟩ := h.exists_node_of_made hname
  have hlinked := FlatTable.named?_link_of_some h.wellFormed w.records hnode
  rw [hclean.locations_eq_nil hname] at hlinked
  exact .inline node hlinked hempty hinline

theorem reads_link_of_rule (hmerge : Rulebook.ofTables w.tables = .ok book)
    (h : book.Tabulates table) (hclean : w.IsClean book) {r : Rule} (hr : r ∈ book.rules) :
    w.Reads (table.link w.records).1 (meaningOf book table) r.name := by
  have hname : r.name ∉ book.made := fun hmade =>
    (Rulebook.fresh_of_mem_made hmade).1 (List.mem_map_of_mem hr)
  obtain ⟨node, hnode, hempty, hkind, hparents⟩ := h.exists_node_of_rule hr (h.depth_le r hr)
  refine .rule _ r.gate (FlatTable.named?_link_of_some h.wellFormed w.records hnode)
    (meaningOf_of_notMem table hname) (gate?_of_mem hmerge hr) ?_ ?_
    (placeAll_perm hempty (hclean.meaningOf_location table))
  · rw [NamedNode.placeAll_eq]
    exact hkind
  · rw [NamedNode.placeAll_eq]
    exact hparents

/-- A name without a rule has a node only if it is a treasure. -/
theorem reads_link_of_notMem (h : book.Tabulates table) (hclean : w.IsClean book) {name : String}
    (hname : name ∉ book.names) (hmade : name ∉ book.made) (hgate : w.gate? name = none) :
    w.Reads (table.link w.records).1 (meaningOf book table) name := by
  have hlinked := FlatTable.named?_link h.wellFormed w.records name
  rw [h.named?_eq_none hname hmade, Option.getD_none] at hlinked
  have hmeaning := meaningOf_of_notMem table hmade
  by_cases hnil : Placement.locations w.records name = []
  · rw [if_pos hnil] at hlinked
    refine .unknown hlinked hmeaning hgate ?_
    rw [placements, hnil]
    rfl
  · rw [if_neg hnil] at hlinked
    refine .treasure _ hlinked hmeaning hgate ?_ ?_
      (placeAll_perm rfl (hclean.meaningOf_location table))
    · rw [NamedNode.placeAll_eq]
      rfl
    · obtain ⟨l, hl⟩ := List.exists_mem_of_ne_nil _ hnil
      exact List.ne_nil_of_mem ((NamedNode.mem_placeAll_iff _ _).2 (Or.inr hl))

theorem reads_link (hmerge : Rulebook.ofTables w.tables = .ok book) (h : book.Tabulates table)
    (hclean : w.IsClean book) (name : String) :
    w.Reads (table.link w.records).1 (meaningOf book table) name := by
  by_cases hmade : name ∈ book.made
  · exact reads_link_of_made h hclean hmade
  · by_cases hname : name ∈ book.names
    · obtain ⟨r, hr, rfl⟩ := List.mem_map.1 hname
      exact reads_link_of_rule hmerge h hclean hr
    · refine reads_link_of_notMem h hclean hname hmade (gate?_eq_none_iff.2 fun hmem => ?_)
      exact hname ((names_perm hmerge).mem_iff.2 hmem)

/-! ### Main statement -/

/-- A name that flattening gave: the table has a node for it that nobody wrote. -/
def Gives (w : Authored) (table : FlatTable) (name : String) : Prop :=
  table.contains name = true ∧ name ∉ w.names

theorem not_gives_of_mem_names {name : String} (h : name ∈ w.names) : ¬ w.Gives table name :=
  fun hgives => hgives.2 h

theorem gives_of_mem_made (hmerge : Rulebook.ofTables w.tables = .ok book)
    (h : book.Tabulates table) {name : String} (hname : name ∈ book.made) :
    w.Gives table name := by
  obtain ⟨node, hnode, -⟩ := h.exists_node_of_made hname
  constructor
  · rw [FlatTable.contains]
    rw [FlatTable.named?, Option.map_eq_some_iff] at hnode
    obtain ⟨n, hn, -⟩ := hnode
    rw [hn]
    rfl
  · intro hwritten
    exact (Rulebook.fresh_of_mem_made hname).1 ((names_perm hmerge).mem_iff.2 hwritten)

theorem Reads.named?_ne_none {name : String} (h : w.Reads table meaning name)
    (hname : name ∈ w.names ∨ name ∈ w.treasures) : table.named? name ≠ none := by
  intro hnone
  cases h with
  | inline node hnode => exact absurd (hnone.symm.trans hnode) (by simp)
  | rule node _ hnode => exact absurd (hnone.symm.trans hnode) (by simp)
  | treasure node hnode => exact absurd (hnone.symm.trans hnode) (by simp)
  | unknown _ _ hgate hplaced =>
      rcases hname with hwritten | htreasure
      · exact gate?_eq_none_iff.1 hgate hwritten
      · obtain ⟨record, hrecord, rfl⟩ := List.mem_map.1 htreasure
        have hmem : record.location ∈ Placement.locations w.records record.treasure :=
          List.mem_map_of_mem (List.mem_filter.2 ⟨hrecord, beq_self_eq_true _⟩)
        rw [placements, List.map_eq_nil_iff, List.dedup_eq_nil] at hplaced
        rw [hplaced] at hmem
        exact absurd hmem List.not_mem_nil

/-- What is compiled, linked and frozen means what was written: the search finds the names
that are reached by the rules as they stand in the tables. -/
theorem exists_solve_reaches {policy : Policy} {maxRounds : Nat} {sink : Sink} {k : Compiled}
    {g : Graph} {journal journal' journal'' : Journal}
    (hcompile : ((Compiler.mk w.tables policy maxRounds sink).compile.run journal).1 = .ok k)
    (hfreeze : (((k.link w.records).run journal').1.1.freeze.run journal'').1 = .ok g)
    (hrecords : ∀ record ∈ w.records,
      ¬ w.Gives k.table record.location ∧ ¬ w.Gives k.table record.treasure)
    (difficulty : Difficulty) (inventory : Inventory)
    (hitems : ∀ item ∈ inventory.items, item ∈ w.names ∨ item ∈ w.treasures) :
    ∃ reached, g.reader.solve difficulty inventory = .ok reached ∧
      ∀ name, name ∈ w.names ∨ name ∈ w.treasures →
        (reached.containsName g.reader name = true ↔
          w.Reaches difficulty inventory (.named name)) := by
  obtain ⟨book, hmerge, htable⟩ := Compiler.exists_tabulates hcompile
  have hclean : w.IsClean book := by
    intro record hrecord
    obtain ⟨hlocation, htreasure⟩ := hrecords record hrecord
    exact ⟨fun hmade => hlocation (gives_of_mem_made hmerge htable hmade),
      fun hmade => htreasure (gives_of_mem_made hmerge htable hmade)⟩
  have hmeaning : ∀ name, name ∈ w.names ∨ name ∈ w.treasures →
      meaningOf book k.table name = .named name := by
    intro name hname
    apply meaningOf_of_notMem
    rcases hname with hwritten | htreasure
    · exact fun hmade => (gives_of_mem_made hmerge htable hmade).2 hwritten
    · obtain ⟨record, hrecord, rfl⟩ := List.mem_map.1 htreasure
      exact (hclean record hrecord).2
  have hreads := reads_link hmerge htable hclean
  have hbuilt : Compiled.Built ((k.link w.records).run journal').1.1 :=
    .link journal' w.records (.compile journal hcompile)
  obtain ⟨reached, hsolve, hiff⟩ := hbuilt.exists_solve_named hfreeze difficulty
    fun item hitem => (hreads item).named?_ne_none (hitems item hitem)
  refine ⟨reached, hsolve, fun name hname => (hiff name).trans ?_⟩
  exact reaches_iff_opens hreads (fun item hitem => hmeaning item (hitems item hitem))
    (hmeaning name hname)

/-- A door whose key asks for item `x` twice, once in a gate of its own. The item has been put
behind the door; no table defines it. -/
def loopRules : Authored where
  tables := [⟨"t", false, [("k", ⟨.or, [.inline .and [.named "x"], .named "x"]⟩),
    ("d", .count 2 "k"), ("s", ⟨.andSlot, [.named "d"]⟩)]⟩]
  records := [⟨"s", "x"⟩]

theorem exists_loopGraph :
    ∃ k, ((Compiler.mk loopRules.tables {} 64 .silent).compile.run {}).1 = .ok k ∧
      k.table.contains "x" = false ∧
      ∃ g, (((k.link loopRules.records).run {}).1.1.freeze.run {}).1 = .ok g := by
  have hgraph : (((Compiler.mk loopRules.tables {} 64 .silent).compile.run {}).1.map fun k =>
      (k.table.contains "x",
        (((k.link loopRules.records).run {}).1.1.freeze.run {}).1.toOption.isSome)) =
      .ok (false, true) := by cbv
  obtain ⟨k, hcompile, hpair⟩ := exists_eq_ok_of_map hgraph
  obtain ⟨hcontains, hfrozen⟩ := Prod.mk.inj hpair
  refine ⟨k, hcompile, hcontains, ?_⟩
  cases hg : (((k.link loopRules.records).run {}).1.1.freeze.run {}).1 with
  | error e =>
      rw [hg] at hfrozen
      contradiction
  | ok g => exact ⟨g, rfl⟩

theorem exists_solve_reaches_loop :
    ∃ k g, ((Compiler.mk loopRules.tables {} 64 .silent).compile.run {}).1 = .ok k ∧
      (((k.link loopRules.records).run {}).1.1.freeze.run {}).1 = .ok g ∧
      (∀ record ∈ loopRules.records, ¬ loopRules.Gives k.table record.location ∧
        ¬ loopRules.Gives k.table record.treasure) ∧
      ∃ reached, g.reader.solve .normal ⟨["x"]⟩ = .ok reached ∧
        (reached.containsName g.reader "s" = true ↔
          loopRules.Reaches .normal ⟨["x"]⟩ (.named "s")) := by
  obtain ⟨k, hcompile, hnone, g, hfreeze⟩ := exists_loopGraph
  have hslot : "s" ∈ loopRules.names := by decide
  have hrecords : ∀ record ∈ loopRules.records, ¬ loopRules.Gives k.table record.location ∧
      ¬ loopRules.Gives k.table record.treasure := by
    intro record hrecord
    obtain rfl := List.mem_singleton.1 hrecord
    refine ⟨not_gives_of_mem_names hslot, fun hgives => ?_⟩
    rw [Gives, hnone] at hgives
    exact Bool.false_ne_true hgives.1
  have hitems : ∀ item ∈ ["x"], item ∈ loopRules.names ∨ item ∈ loopRules.treasures := by
    decide
  obtain ⟨reached, hsolve, hiff⟩ :=
    exists_solve_reaches hcompile hfreeze hrecords .normal ⟨["x"]⟩ hitems
  exact ⟨k, g, hcompile, hfreeze, hrecords, reached, hsolve, hiff "s" (Or.inl hslot)⟩

end Authored

end Progression

import Progression.Proofs.Building
import Progression.Proofs.Dependents

/-!
The search on graphs that were built. It ends in the least set of nodes that has the items
and is closed under the rules. Read by name, the same holds of the table that was frozen.
-/

namespace Progression

variable {k : Compiled} {g : Graph} {journal : Journal}

/-! ### The least set of nodes -/

theorem Graph.lt_of_lookup? {name : String} {id : NodeId} (h : g.lookup? name = some id) :
    id < g.size :=
  (List.findIdx?_eq_some_iff_getElem.1 h).1

theorem Graph.lt_of_holds {difficulty : Difficulty} {isOpen : NodeId → Bool} {id : NodeId}
    (h : g.reader.holds difficulty isOpen id = true) : id < g.size := by
  rw [Reader.holds_eq, Option.any_eq_true] at h
  obtain ⟨kind, hkind, -⟩ := h
  exact Graph.lt_of_kind? hkind

/-- On a built graph the search finds the least set of nodes that has the items and is
closed under the rules. -/
theorem Compiled.Built.exists_solve_least (h : k.Built)
    (hfreeze : (k.freeze.run journal).1 = .ok g) (difficulty : Difficulty)
    (inventory : Inventory) (hknown : ∀ item ∈ inventory.items, g.lookup? item ≠ none) :
    ∃ reached, g.reader.solve difficulty inventory = .ok reached ∧
      (∀ item ∈ inventory.items, ∀ id, g.lookup? item = some id → reached.contains id = true) ∧
      (∀ id, g.reader.holds difficulty reached.contains id = true →
        reached.contains id = true) ∧
      ∀ isOpen : NodeId → Bool,
        (∀ item ∈ inventory.items, ∀ id, g.lookup? item = some id → isOpen id = true) →
        (∀ id < g.size, g.reader.holds difficulty isOpen id = true → isOpen id = true) →
        ∀ id, reached.contains id = true → isOpen id = true := by
  have hnames := g.reader_namesDependents difficulty (h.numbers hfreeze).dependents_eq
  obtain ⟨reached, hsolve, hitems, hclosed, hleast⟩ := Reader.solve_eq_ok hnames hknown
  refine ⟨reached, hsolve, ?_, ?_, ?_⟩
  · intro item hitem id hlookup
    exact hitems item hitem id hlookup (Graph.lt_of_lookup? hlookup)
  · intro id hopen
    exact hclosed id (Graph.lt_of_holds hopen) hopen
  · intro isOpen hhas hisClosed
    exact hleast isOpen (fun item hitem id hlookup _ => hhas item hitem id hlookup) hisClosed

theorem exists_solve_least_door :
    ∃ k, (doorCompiler.compile.run {}).1 = .ok k ∧ (k.freeze.run {}).1 = .ok doorGraph ∧
      (∀ item ∈ ["a"], doorGraph.lookup? item ≠ none) ∧
      ∃ reached, doorGraph.reader.solve .normal ⟨["a"]⟩ = .ok reached ∧
        ∀ id, doorGraph.reader.holds .normal reached.contains id = true →
          reached.contains id = true := by
  obtain ⟨k, hcompile, hfreeze⟩ := exists_doorGraph
  have hknown : ∀ item ∈ ["a"], doorGraph.lookup? item ≠ none := by decide
  obtain ⟨reached, hsolve, -, hclosed, -⟩ :=
    Compiled.Built.exists_solve_least (.compile {} hcompile) hfreeze .normal ⟨["a"]⟩ hknown
  exact ⟨k, hcompile, hfreeze, hknown, reached, hsolve, hclosed⟩

/-! ### Reading by name -/

namespace FlatTable

variable {table : FlatTable}

/-- The producers of the first parent, by name. -/
def producersOf (table : FlatTable) : List String → List String
  | [] => []
  | resource :: _ =>
    match table.named? resource with
    | some node => node.parents ++ node.placements.filter (· ∉ node.parents)
    | none => []

/-- The rule of a name, given which names are open. -/
def opens (table : FlatTable) (difficulty : Difficulty) (isOpen : String → Bool)
    (name : String) : Bool :=
  (table.named? name).any fun node =>
    node.kind.opensPlaced difficulty isOpen node.parents (table.producersOf node.parents)
      node.placements

/-- In the least set of names that has the items and is closed under the rules. -/
def Obtains (table : FlatTable) (difficulty : Difficulty) (inventory : Inventory)
    (name : String) : Prop :=
  ∀ isOpen : String → Bool, (∀ item ∈ inventory.items, isOpen item = true) →
    (∀ n, table.opens difficulty isOpen n = true → isOpen n = true) → isOpen name = true

theorem opens_mono {difficulty : Difficulty} {isOpen isOpen' : String → Bool}
    (hle : ∀ name, isOpen name = true → isOpen' name = true) {name : String}
    (h : table.opens difficulty isOpen name = true) :
    table.opens difficulty isOpen' name = true := by
  rw [opens, Option.any_eq_true] at h ⊢
  obtain ⟨node, hnode, hopen⟩ := h
  exact ⟨node, hnode, Kind.opensPlaced_mono hle hopen⟩

end FlatTable

namespace Graph.Numbers

variable {table : FlatTable}

theorem parents_eq (hg : g.Numbers table) {id : NodeId} {node : FlatNode}
    (hnode : table.node? id = some node) : g.parents id = node.parents :=
  Graph.parents_eq (hg.node?_eq id node hnode)

theorem placements_eq (hg : g.Numbers table) {id : NodeId} {node : FlatNode}
    (hnode : table.node? id = some node) : g.placements id = node.placements :=
  Graph.placements_eq (hg.node?_eq id node hnode)

/-- Producers of ids have the names that are producers of names. -/
theorem map_producers (hg : g.Numbers table) (h : table.WellFormed) {parents : List NodeId}
    (hlt : ∀ p ∈ parents, p < g.size) :
    (g.reader.producers parents).map table.name = table.producersOf (parents.map table.name) := by
  cases parents with
  | nil => rfl
  | cons resource rest =>
      have hresource := hlt resource List.mem_cons_self
      obtain ⟨node, hnode⟩ := hg.defined resource hresource
      have hnamed := h.named?_name (hg.size_eq ▸ hresource)
      rw [hnode, Option.map_some] at hnamed
      have hparents := hg.parents_eq hnode
      have hplacements := hg.placements_eq hnode
      have hin : ∀ p ∈ node.placements,
          (!node.parents.contains p) = decide (table.name p ∉ node.parents.map table.name) := by
        intro p hp
        have hsources := h.sources_lt resource node hnode
        have hp' := hsources p (List.mem_append_right _ hp)
        have hmem := h.name_mem_map_iff
          (fun q hq => hsources q (List.mem_append_left _ hq)) hp'
        rw [decide_not, decide_eq_decide.2 hmem, List.contains_eq_mem]
      show (g.parents resource ++
        (g.placements resource).filter (!(g.parents resource).contains ·)).map table.name = _
      rw [hparents, hplacements, List.map_cons, FlatTable.producersOf]
      simp only [hnamed, FlatTable.toNamed, List.map_append, List.filter_map]
      rw [List.filter_congr hin]
      rfl

theorem lt_of_mem_producers (hg : g.Numbers table) (h : table.WellFormed)
    {parents : List NodeId} (hlt : ∀ p ∈ parents, p < g.size) {p : NodeId}
    (hp : p ∈ g.reader.producers parents) : p < g.size := by
  cases parents with
  | nil => exact absurd hp List.not_mem_nil
  | cons resource rest =>
      obtain ⟨node, hnode⟩ := hg.defined resource (hlt resource List.mem_cons_self)
      apply hg.lt_of_source h hnode
      rw [FlatNode.sources, ← hg.parents_eq hnode, ← hg.placements_eq hnode, List.mem_append]
      exact (List.mem_append.1 hp).imp_right List.mem_of_mem_filter

/-- The rule of an id is the rule of its name. -/
theorem holds_eq (hg : g.Numbers table) (h : table.WellFormed) (difficulty : Difficulty)
    {isOpen : NodeId → Bool} {isOpenNamed : String → Bool}
    (hagree : ∀ id < g.size, isOpen id = isOpenNamed (table.name id)) {id : NodeId}
    (hid : id < g.size) :
    g.reader.holds difficulty isOpen id =
      table.opens difficulty isOpenNamed (table.name id) := by
  obtain ⟨node, hnode⟩ := hg.defined id hid
  have hkind : g.reader.kind? id = some node.kind := Graph.kind?_eq (hg.node?_eq id node hnode)
  have hparents : g.reader.parents id = node.parents := hg.parents_eq hnode
  have hplacements : g.reader.placements id = node.placements := hg.placements_eq hnode
  have hsources : ∀ p ∈ node.sources, p < g.size := fun p hp => hg.lt_of_source h hnode hp
  have hparentsLt : ∀ p ∈ node.parents, p < g.size :=
    fun p hp => hsources p (List.mem_append_left _ hp)
  rw [Reader.holds_eq, FlatTable.opens, h.named?_name (hg.size_eq ▸ hid), hnode, hkind,
    hparents, hplacements]
  simp only [Option.map_some, Option.any_some, FlatTable.toNamed]
  rw [← hg.map_producers h hparentsLt, Kind.opensPlaced_map]
  apply Kind.opensPlaced_congr
  · exact fun p hp => hagree p (hparentsLt p hp)
  · exact fun _ p hp => hagree p (hg.lt_of_mem_producers h hparentsLt hp)
  · exact fun p hp => hagree p (hsources p (List.mem_append_right _ hp))

theorem lookup?_eq_some_iff (hg : g.Numbers table) (h : table.WellFormed) {name : String}
    {id : NodeId} : g.reader.lookup? name = some id ↔ id < g.size ∧ table.name id = name := by
  show g.lookup? name = some id ↔ _
  rw [hg.lookup?_eq h, h.symbol?_eq_some_iff, hg.size_eq]

theorem exists_id (hg : g.Numbers table) (h : table.WellFormed) {name : String}
    (hname : table.named? name ≠ none) : ∃ id < g.size, table.name id = name := by
  obtain ⟨node, hnode⟩ := Option.ne_none_iff_exists'.1 hname
  obtain ⟨id, n, hn, heq, -⟩ := h.named?_eq_some_iff.1 hnode
  exact ⟨id, hg.size_eq ▸ h.lt_of_node? hn, heq⟩

/-- The graph knows the names that have a node in the table. -/
theorem isNone_lookup? (hg : g.Numbers table) (h : table.WellFormed) (name : String) :
    (g.reader.lookup? name).isNone = (table.named? name).isNone := by
  cases hlookup : g.reader.lookup? name with
  | none =>
      cases hnode : table.named? name with
      | none => rfl
      | some node =>
          obtain ⟨id, hid⟩ := hg.exists_id h (by rw [hnode]; exact Option.some_ne_none node)
          rw [(hg.lookup?_eq_some_iff h).2 hid] at hlookup
          contradiction
  | some id =>
      obtain ⟨hid, rfl⟩ := (hg.lookup?_eq_some_iff h).1 hlookup
      obtain ⟨node, hnode⟩ := hg.defined id hid
      rw [h.named?_name (hg.size_eq ▸ hid), hnode]
      rfl

theorem containsName_eq (hg : g.Numbers table) (h : table.WellFormed) (reached : Reached)
    {id : NodeId} (hid : id < g.size) :
    reached.containsName g.reader (table.name id) = reached.contains id := by
  rw [Reached.containsName, (hg.lookup?_eq_some_iff h).2 ⟨hid, rfl⟩, Option.any_some]

/-- A set of nodes that is closed under the rules is closed under them by name. -/
theorem containsName_of_opens (hg : g.Numbers table) (h : table.WellFormed)
    {difficulty : Difficulty} {reached : Reached}
    (hclosed : g.reader.IsClosed difficulty reached.contains) {name : String}
    (hopen : table.opens difficulty (reached.containsName g.reader) name = true) :
    reached.containsName g.reader name = true := by
  have hnamed : table.named? name ≠ none := by
    intro hnone
    rw [FlatTable.opens, hnone] at hopen
    contradiction
  obtain ⟨id, hid, rfl⟩ := hg.exists_id h hnamed
  have hagree : ∀ p < g.size, reached.contains p = reached.containsName g.reader (table.name p) :=
    fun p hp => (hg.containsName_eq h reached hp).symm
  rw [← hg.holds_eq h difficulty hagree hid] at hopen
  rw [hg.containsName_eq h reached hid]
  exact hclosed id hid hopen

/-- The search finds the least set of names that has the items and is closed under the rules
of the table. -/
theorem exists_solve_named (hg : g.Numbers table) (h : table.WellFormed)
    (difficulty : Difficulty) {inventory : Inventory}
    (hknown : ∀ item ∈ inventory.items, table.named? item ≠ none) :
    ∃ reached, g.reader.solve difficulty inventory = .ok reached ∧
      ∀ name, reached.containsName g.reader name = true ↔
        table.Obtains difficulty inventory name := by
  have hitemKnown : ∀ item ∈ inventory.items, g.reader.lookup? item ≠ none := by
    intro item hitem hnone
    obtain ⟨id, hid⟩ := hg.exists_id h (hknown item hitem)
    rw [(hg.lookup?_eq_some_iff h).2 hid] at hnone
    contradiction
  obtain ⟨reached, hsolve, hitems, hclosed, hleast⟩ :=
    Reader.solve_eq_ok (g.reader_namesDependents difficulty hg.dependents_eq) hitemKnown
  refine ⟨reached, hsolve, fun name => ⟨?_, ?_⟩⟩
  · -- A set of names is the set of nodes that have them.
    intro hname isOpen hhas hisClosed
    obtain ⟨id, hid, hreached⟩ := (Option.any_eq_true _ _).1 hname
    obtain ⟨-, rfl⟩ := (hg.lookup?_eq_some_iff h).1 hid
    refine hleast (fun p => isOpen (table.name p)) ?_ ?_ id hreached
    · intro item hitem p hp _
      obtain ⟨-, rfl⟩ := (hg.lookup?_eq_some_iff h).1 hp
      exact hhas _ hitem
    · intro p hp hopen
      rw [hg.holds_eq h difficulty (fun _ _ => rfl) hp] at hopen
      exact hisClosed _ hopen
  · intro hall
    apply hall (reached.containsName g.reader)
    · intro item hitem
      obtain ⟨id, hlt, rfl⟩ := hg.exists_id h (hknown item hitem)
      rw [hg.containsName_eq h reached hlt]
      exact hitems _ hitem id ((hg.lookup?_eq_some_iff h).2 ⟨hlt, rfl⟩) hlt
    · exact fun n hopen => hg.containsName_of_opens h hclosed hopen

/-- A name is reported as reachable if the items are known and it is in the least set. -/
theorem isReachable_iff (hg : g.Numbers table) (h : table.WellFormed) {difficulty : Difficulty}
    {inventory : Inventory} {name : String} :
    g.reader.isReachable difficulty inventory name = .ok true ↔
      (∀ item ∈ inventory.items, table.named? item ≠ none) ∧
        table.Obtains difficulty inventory name := by
  rw [Reader.isReachable_eq_true_iff]
  constructor
  · rintro ⟨reached, hsolve, hname⟩
    have hknown : ∀ item ∈ inventory.items, table.named? item ≠ none := by
      intro item hitem hnone
      have hlookup := hg.isNone_lookup? h item
      rw [hnone, Option.isNone_none, Option.isNone_iff_eq_none] at hlookup
      exact Reader.lookup?_ne_none_of_solve hsolve item hitem hlookup
    obtain ⟨reached', hsolve', hnames⟩ := hg.exists_solve_named h difficulty hknown
    obtain rfl := Except.ok.inj (hsolve.symm.trans hsolve')
    exact ⟨hknown, (hnames name).1 hname⟩
  · rintro ⟨hknown, hobtains⟩
    obtain ⟨reached, hsolve, hnames⟩ := hg.exists_solve_named h difficulty hknown
    exact ⟨reached, hsolve, (hnames name).2 hobtains⟩

end Graph.Numbers

/-- On a built graph the search finds the least set of names that has the items and is closed
under the rules of the table. -/
theorem Compiled.Built.exists_solve_named (h : k.Built)
    (hfreeze : (k.freeze.run journal).1 = .ok g) (difficulty : Difficulty)
    {inventory : Inventory} (hknown : ∀ item ∈ inventory.items, k.table.named? item ≠ none) :
    ∃ reached, g.reader.solve difficulty inventory = .ok reached ∧
      ∀ name, reached.containsName g.reader name = true ↔
        k.table.Obtains difficulty inventory name :=
  (h.numbers hfreeze).exists_solve_named h.wellFormed difficulty hknown

end Progression

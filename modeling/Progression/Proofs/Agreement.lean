import Mathlib
import Progression.Proofs.Balance
import Progression.Proofs.Solving

/-!
Records in another order. A treasure's node may be made by one record or by another, so the
order of the records decides how symbols are numbered and in which order places are listed.
Main statement: it decides nothing else. The tables agree but for these two, the counts are
the same, and whoever freezes the table and asks what opens gets the same answer.
-/

namespace Progression

/-- Nodes that differ at most in the order of their placements. -/
structure NamedNode.Agrees (a b : NamedNode) : Prop where
  kind_eq : a.kind = b.kind
  parents_eq : a.parents = b.parents
  source_eq : a.source = b.source
  placeable_eq : a.placeable = b.placeable
  placements_iff : ∀ l, l ∈ a.placements ↔ l ∈ b.placements

theorem NamedNode.Agrees.symm {a b : NamedNode} (h : a.Agrees b) : b.Agrees a :=
  ⟨h.kind_eq.symm, h.parents_eq.symm, h.source_eq.symm, h.placeable_eq.symm,
    fun l => (h.placements_iff l).symm⟩

/-- Places that are given in another order make nodes that agree. -/
theorem NamedNode.agrees_placeAll (node : NamedNode) {locations locations' : List String}
    (hperm : locations.Perm locations') :
    (node.placeAll locations).Agrees (node.placeAll locations') := by
  rw [placeAll_eq locations, placeAll_eq locations']
  refine ⟨rfl, rfl, rfl, rfl, fun l => ?_⟩
  rw [mem_placeAll_iff, mem_placeAll_iff, hperm.mem_iff]

namespace FlatTable

variable {table table' : FlatTable} {difficulty : Difficulty} {inventory : Inventory}

/-- The same names have nodes, and the nodes agree. -/
def Agrees (table table' : FlatTable) : Prop :=
  ∀ name, Option.Rel NamedNode.Agrees (table.named? name) (table'.named? name)

/-! ### Reading tables that agree -/

namespace Agrees

theorem cases (h : table.Agrees table') (name : String) :
    (table.named? name = none ∧ table'.named? name = none) ∨
      ∃ node node', table.named? name = some node ∧ table'.named? name = some node' ∧
        node.Agrees node' := by
  have hname := h name
  generalize table.named? name = node at hname
  generalize table'.named? name = node' at hname
  cases hname with
  | some hnode => exact Or.inr ⟨_, _, rfl, rfl, hnode⟩
  | none => exact Or.inl ⟨rfl, rfl⟩

theorem symm (h : table.Agrees table') : table'.Agrees table := by
  intro name
  rcases h.cases name with ⟨hnone, hnone'⟩ | ⟨node, node', hnode, hnode', hagree⟩
  · rw [hnone, hnone']
    exact .none
  · rw [hnode, hnode']
    exact .some hagree.symm

theorem named?_eq_none_iff (h : table.Agrees table') {name : String} :
    table.named? name = none ↔ table'.named? name = none := by
  rcases h.cases name with ⟨hnone, hnone'⟩ | ⟨node, node', hnode, hnode', -⟩
  · rw [hnone, hnone']
  · rw [hnode, hnode']
    simp

theorem leavesOpen (hagree : table.Agrees table') (h : table.WellFormed)
    (h' : table'.WellFormed) {r : UnresolvedReference} (hopen : table.LeavesOpen r) :
    table'.LeavesOpen r := by
  obtain ⟨node, hnode, hsource, hmissing⟩ := h.leavesOpen_iff.1 hopen
  rcases hagree.cases r.node with ⟨hnone, -⟩ | ⟨n, n', hn, hn', hsame⟩
  · rw [hnone] at hnode
    contradiction
  · obtain rfl := Option.some.inj (hn.symm.trans hnode)
    refine h'.leavesOpen_iff.2 ⟨n', hn', ?_, hagree.named?_eq_none_iff.1 hmissing⟩
    rw [NamedNode.sources, List.mem_append] at hsource ⊢
    rwa [← hsame.parents_eq, ← hsame.placements_iff]

/-- The same references are left open, and they are reported alike. -/
theorem unresolved_eq (hagree : table.Agrees table') (h : table.WellFormed)
    (h' : table'.WellFormed) : table.unresolved = table'.unresolved := by
  refine table.pairwise_unresolved.eq_of_mem_iff table'.pairwise_unresolved fun r => ?_
  rw [mem_unresolved_iff, mem_unresolved_iff]
  exact ⟨hagree.leavesOpen h h', hagree.symm.leavesOpen h' h⟩

theorem placements_perm (h : table.WellFormed) (h' : table'.WellFormed) {name : String}
    {node node' : NamedNode} (hnode : table.named? name = some node)
    (hnode' : table'.named? name = some node') (hagree : node.Agrees node') :
    node.placements.Perm node'.placements :=
  (List.perm_ext_iff_of_nodup (h.nodup_placements hnode) (h'.nodup_placements hnode')).2
    hagree.placements_iff

theorem producersOf_perm (hagree : table.Agrees table') (h : table.WellFormed)
    (h' : table'.WellFormed) (parents : List String) :
    (table.producersOf parents).Perm (table'.producersOf parents) := by
  cases parents with
  | nil => exact List.Perm.refl _
  | cons resource rest =>
      rcases hagree.cases resource with ⟨hnone, hnone'⟩ | ⟨node, node', hnode, hnode', hsame⟩
      · simp [producersOf, hnone, hnone']
      · simp only [producersOf, hnode, hnode', hsame.parents_eq]
        exact ((placements_perm h h' hnode hnode' hsame).filter _).append_left _

theorem opens_eq (hagree : table.Agrees table') (h : table.WellFormed) (h' : table'.WellFormed) :
    table.opens = table'.opens := by
  funext difficulty isOpen name
  rw [opens, opens]
  rcases hagree.cases name with ⟨hnone, hnone'⟩ | ⟨node, node', hnode, hnode', hsame⟩
  · simp [hnone, hnone']
  · rw [hnode, hnode', Option.any_some, Option.any_some, hsame.kind_eq, hsame.parents_eq]
    exact Kind.opensPlaced_perm (hagree.producersOf_perm h h' _)
      (placements_perm h h' hnode hnode' hsame)

end Agrees

/-! ### What can be learned from a table -/

/-- Freezing the table and asking which names open. -/
def answers (table : FlatTable) (difficulty : Difficulty) (inventory : Inventory) :
    Except FreezeError (Except SolveError (String → Bool)) :=
  table.freeze.map fun g =>
    (g.reader.solve difficulty inventory).map fun reached => reached.containsName g.reader

theorem answers_of_unresolved (h : table.unresolved ≠ []) :
    table.answers difficulty inventory = .error ⟨table.unresolved⟩ := by
  rw [answers, freeze_eq_error_iff.2 ⟨h, rfl⟩]
  rfl

theorem answers_of_unknown (h : table.WellFormed) (hcovered : table.Covered [])
    (hresolved : table.unresolved = []) {item : String}
    (hfind : inventory.items.find? (fun i => (table.named? i).isNone) = some item) :
    table.answers difficulty inventory = .ok (.error (.unknownItem item)) := by
  obtain ⟨g, hfreeze⟩ := exists_freeze_of_resolved hresolved
  have hg := numbers_of_freeze h hcovered hfreeze
  rw [← funext fun i => hg.isNone_lookup? h i] at hfind
  rw [answers, hfreeze]
  show Except.ok ((g.reader.solve difficulty inventory).map _) = _
  rw [Reader.solve_eq_error hfind]
  rfl

theorem answers_of_known (difficulty : Difficulty) (h : table.WellFormed)
    (hcovered : table.Covered []) (hresolved : table.unresolved = [])
    (hfind : inventory.items.find? (fun i => (table.named? i).isNone) = none) :
    ∃ names : String → Bool, table.answers difficulty inventory = .ok (.ok names) ∧
      ∀ name, names name = true ↔ table.Obtains difficulty inventory name := by
  obtain ⟨g, hfreeze⟩ := exists_freeze_of_resolved hresolved
  have hknown : ∀ item ∈ inventory.items, table.named? item ≠ none := by
    intro item hitem hnone
    exact List.find?_eq_none.1 hfind item hitem (by rw [hnone]; rfl)
  obtain ⟨reached, hsolve, hnames⟩ :=
    (numbers_of_freeze h hcovered hfreeze).exists_solve_named h difficulty hknown
  refine ⟨reached.containsName g.reader, ?_, hnames⟩
  rw [answers, hfreeze]
  show Except.ok ((g.reader.solve difficulty inventory).map _) = _
  rw [hsolve]
  rfl

/-- Tables that agree give the same answers. -/
theorem Agrees.answers_eq (hagree : table.Agrees table') (h : table.WellFormed)
    (h' : table'.WellFormed) (hcovered : table.Covered []) (hcovered' : table'.Covered []) :
    table.answers = table'.answers := by
  funext difficulty inventory
  have hunresolved := hagree.unresolved_eq h h'
  have hopens := hagree.opens_eq h h'
  have hknown : ∀ i, (table.named? i).isNone = (table'.named? i).isNone := by
    intro i
    rw [Bool.eq_iff_iff, Option.isNone_iff_eq_none, Option.isNone_iff_eq_none]
    exact hagree.named?_eq_none_iff
  by_cases hresolved : table.unresolved = []
  · have hresolved' : table'.unresolved = [] := hunresolved ▸ hresolved
    cases hfind : inventory.items.find? (fun i => (table.named? i).isNone) with
    | some item =>
        have hfind' := hfind
        simp only [hknown] at hfind'
        rw [answers_of_unknown h hcovered hresolved hfind,
          answers_of_unknown h' hcovered' hresolved' hfind']
    | none =>
        have hfind' := hfind
        simp only [hknown] at hfind'
        obtain ⟨names, hanswer, hnames⟩ :=
          answers_of_known difficulty h hcovered hresolved hfind
        obtain ⟨names', hanswer', hnames'⟩ :=
          answers_of_known difficulty h' hcovered' hresolved' hfind'
        -- What is obtained depends on the table through its rules only.
        have hsame : names = names' := by
          funext name
          rw [Bool.eq_iff_iff, hnames, hnames', Obtains, Obtains, hopens]
        rw [hanswer, hanswer', hsame]
  · rw [answers_of_unresolved hresolved, answers_of_unresolved (hunresolved ▸ hresolved),
      hunresolved]

/-! ### Main statement -/

/-- Linking the same records in another order gives tables that agree. -/
theorem agrees_link (h : table.WellFormed) {records records' : List Placement}
    (hperm : records.Perm records') : (table.link records).1.Agrees (table.link records').1 := by
  intro name
  have hlocations : (Placement.locations records name).Perm (Placement.locations records' name) :=
    (hperm.filter _).map _
  rw [named?_link h, named?_link h]
  by_cases hnil : Placement.locations records name = []
  · have hnil' : Placement.locations records' name = [] := (hnil ▸ hlocations).nil_eq.symm
    rw [if_pos hnil, if_pos hnil']
    cases table.named? name with
    | none => exact .none
    | some node => exact .some ⟨rfl, rfl, rfl, rfl, fun _ => Iff.rfl⟩
  · have hnil' : Placement.locations records' name ≠ [] :=
      fun heq => hnil ((heq ▸ hlocations).eq_nil)
    rw [if_neg hnil, if_neg hnil']
    exact .some (NamedNode.agrees_placeAll _ hlocations)

theorem Agrees.length_eq (hagree : table.Agrees table') (h : table.WellFormed)
    (h' : table'.WellFormed) :
    table.names.length = table'.names.length ∧ table.edges.length = table'.edges.length := by
  constructor
  · refine ((List.perm_ext_iff_of_nodup h.nodup_entries h'.nodup_entries).2 ?_).length_eq
    intro name
    show name ∈ table.names ↔ name ∈ table'.names
    rw [h.mem_names_iff, h'.mem_names_iff, not_iff_not]
    exact hagree.named?_eq_none_iff
  · refine ((List.perm_ext_iff_of_nodup h.nodup_edges h'.nodup_edges).2 ?_).length_eq
    rintro ⟨name, l⟩
    rw [h.mem_edges_iff, h'.mem_edges_iff]
    rcases hagree.cases name with ⟨hnone, hnone'⟩ | ⟨node, node', hnode, hnode', hsame⟩
    · simp [hnone, hnone']
    · simp [hnode, hnode', hsame.placements_iff]

/-- The order of the records matters to nobody: the tables agree, the counts are the same, and
so is everything that can be learned from the tables. -/
theorem Linked.link_perm (h : table.Linked) {records records' : List Placement}
    (hperm : records.Perm records') :
    (table.link records).1.Agrees (table.link records').1 ∧
      (table.link records).2 = (table.link records').2 ∧
      ∀ difficulty inventory, (table.link records).1.answers difficulty inventory =
        (table.link records').1.answers difficulty inventory := by
  have hlinked : (table.link records).1.Linked := .link records h
  have hlinked' : (table.link records').1.Linked := .link records' h
  have hagree := agrees_link h.wellFormed hperm
  refine ⟨hagree, ?_, fun difficulty inventory => ?_⟩
  · obtain ⟨hnames, hedges⟩ := hagree.length_eq hlinked.wellFormed hlinked'.wellFormed
    have haccounts := accounts_link h.wellFormed records
    rw [hperm.length_eq] at haccounts
    exact haccounts.stats_eq (accounts_link h.wellFormed records') hnames hedges
  · rw [hagree.answers_eq hlinked.wellFormed hlinked'.wellFormed hlinked.covered hlinked'.covered]

def doorBook : Rulebook :=
  ⟨[⟨"a", .root, "t", false⟩, ⟨"d", .count 2 "k", "t", false⟩,
    ⟨"k", ⟨.or, [.named "a", .named "a"]⟩, "t", false⟩,
    ⟨"s", ⟨.andSlot, [.named "d"]⟩, "t", false⟩]⟩

/-- Two rings lie where the other one is; each record makes one of them and names the other. -/
theorem link_perm_rings :
    ∃ table, Rulebook.ofTables doorCompiler.tables = .ok doorBook ∧
      doorBook.flatten? 64 = some table ∧
      (table.link [⟨"p", "q"⟩, ⟨"q", "p"⟩]).1.vocabulary ≠
        (table.link [⟨"q", "p"⟩, ⟨"p", "q"⟩]).1.vocabulary ∧
      (table.link [⟨"p", "q"⟩, ⟨"q", "p"⟩]).1.Agrees (table.link [⟨"q", "p"⟩, ⟨"p", "q"⟩]).1 ∧
      (table.link [⟨"p", "q"⟩, ⟨"q", "p"⟩]).2 = (table.link [⟨"q", "p"⟩, ⟨"p", "q"⟩]).2 := by
  have hmerge : Rulebook.ofTables doorCompiler.tables = .ok doorBook := by cbv
  have hruns : ((doorBook.flatten? 64).map fun table =>
      ((table.link [⟨"p", "q"⟩, ⟨"q", "p"⟩]).1.vocabulary,
        (table.link [⟨"q", "p"⟩, ⟨"p", "q"⟩]).1.vocabulary)) =
      some (["a", "d", "k", "s", "p", "q"], ["a", "d", "k", "s", "q", "p"]) := by cbv
  obtain ⟨table, hflatten, hvocabulary⟩ := Option.map_eq_some_iff.1 hruns
  obtain ⟨hfirst, hsecond⟩ := Prod.mk.inj hvocabulary
  obtain ⟨hagree, hstats, -⟩ :=
    Linked.link_perm (.flatten hmerge hflatten) (.swap ⟨"q", "p"⟩ ⟨"p", "q"⟩ [])
  exact ⟨table, hmerge, hflatten, by rw [hfirst, hsecond]; decide, hagree, hstats⟩

end FlatTable

end Progression

import Progression.Proofs.Inventories
import Progression.Proofs.Numbering
import Progression.Proofs.Solving

/-!
What opens for more items, for players who accept more, and for items that open anyway. Runs of
the search look at nodes in different orders, so they are not compared step by step. Each ends
in the least set that has its items and is closed under the rules, and such sets are compared:
a set that is good enough for the greater question is good enough for the smaller one.
-/

namespace Progression

namespace Kind

variable {α : Type} {kind : Kind} {difficulty : Difficulty} {isOpen : α → Bool}
  {parents producers placements : List α}

/-- What opens at some difficulty opens for players who accept everything. -/
theorem opensPlaced_hard
    (h : kind.opensPlaced difficulty isOpen parents producers placements = true) :
    kind.opensPlaced .hard isOpen parents producers placements = true := by
  simp only [opensPlaced, opens, Difficulty.allowsHard, Bool.or_true, Bool.true_and,
    Bool.or_eq_true, Bool.and_eq_true] at h ⊢
  exact h.imp_right fun hopen => ⟨hopen.1, hopen.2.2⟩

/-- A hard gate opens by a placement only, for players who do not accept it. -/
theorem opensPlaced_normal (hhard : kind.isHard = true) :
    kind.opensPlaced .normal isOpen parents producers placements = placements.any isOpen := by
  simp [opensPlaced, opens, hhard, Difficulty.allowsHard]

end Kind

namespace Reader

variable {r : Reader} {difficulty : Difficulty} {inventory inventory' : Inventory} {id : NodeId}

theorem holds_hard {isOpen : NodeId → Bool} (h : r.holds difficulty isOpen id = true) :
    r.holds .hard isOpen id = true := by
  rw [holds_eq, Option.any_eq_true] at h ⊢
  obtain ⟨kind, hkind, hopen⟩ := h
  exact ⟨kind, hkind, Kind.opensPlaced_hard hopen⟩

theorem holds_normal {isOpen : NodeId → Bool} {kind : Kind} (hkind : r.kind? id = some kind)
    (hhard : kind.isHard = true) :
    r.holds .normal isOpen id = (r.placements id).any isOpen := by
  rw [holds_eq, hkind, Option.any_some, Kind.opensPlaced_normal hhard]

/-! ### What a search reaches -/

/-- The reader has a node for every item. -/
def Knows (r : Reader) (inventory : Inventory) : Prop :=
  ∀ item ∈ inventory.items, r.lookup? item ≠ none

/-- The search ends, and it opens the node. -/
def Reaches (r : Reader) (difficulty : Difficulty) (inventory : Inventory) (id : NodeId) : Prop :=
  ∃ reached, r.solve difficulty inventory = .ok reached ∧ reached.contains id = true

theorem Reaches.knows (h : r.Reaches difficulty inventory id) : r.Knows inventory := by
  obtain ⟨reached, hsolve, -⟩ := h
  exact lookup?_ne_none_of_solve hsolve

theorem exists_solve_iff (hdependents : r.NamesDependents difficulty) :
    (∃ reached, r.solve difficulty inventory = .ok reached) ↔ r.Knows inventory := by
  constructor
  · rintro ⟨reached, hsolve⟩
    exact lookup?_ne_none_of_solve hsolve
  · intro hknown
    obtain ⟨reached, hsolve, -⟩ := solve_eq_ok hdependents hknown
    exact ⟨reached, hsolve⟩

/-- What is reached is in every set that has the items and is closed under the rules. -/
theorem reaches_iff_forall (hdependents : r.NamesDependents difficulty)
    (hknown : r.Knows inventory) :
    r.Reaches difficulty inventory id ↔ ∀ isOpen : NodeId → Bool,
      r.HasItems inventory isOpen → r.IsClosed difficulty isOpen → isOpen id = true := by
  obtain ⟨reached, hsolve, hitems, hclosed, hleast⟩ := solve_eq_ok hdependents hknown
  constructor
  · rintro ⟨reached', hsolve', hid⟩ isOpen hhas hisClosed
    obtain rfl := Except.ok.inj (hsolve.symm.trans hsolve')
    exact hleast isOpen hhas hisClosed id hid
  · exact fun hall => ⟨reached, hsolve, hall reached.contains hitems hclosed⟩

theorem Reaches.lt (hdependents : r.NamesDependents difficulty)
    (h : r.Reaches difficulty inventory id) : id < r.count := by
  have hall := (reaches_iff_forall hdependents h.knows).1 h (fun p => decide (p < r.count))
  exact of_decide_eq_true <| hall (fun _ _ _ _ hlt => decide_eq_true hlt)
    fun _ hlt _ => decide_eq_true hlt

/-- More items open more. -/
theorem Reaches.mono (hdependents : r.NamesDependents difficulty)
    (hsubset : ∀ item ∈ inventory.items, item ∈ inventory'.items) (hknown : r.Knows inventory')
    (h : r.Reaches difficulty inventory id) : r.Reaches difficulty inventory' id := by
  rw [reaches_iff_forall hdependents hknown]
  intro isOpen hhas hclosed
  refine (reaches_iff_forall hdependents h.knows).1 h isOpen ?_ hclosed
  exact fun item hitem => hhas item (hsubset item hitem)

/-- Accepting hard tricks closes nothing. -/
theorem Reaches.hard (hdependents : ∀ difficulty, r.NamesDependents difficulty)
    (h : r.Reaches difficulty inventory id) : r.Reaches .hard inventory id := by
  rw [reaches_iff_forall (hdependents .hard) h.knows]
  intro isOpen hhas hclosed
  refine (reaches_iff_forall (hdependents difficulty) h.knows).1 h isOpen hhas ?_
  exact fun p hlt hholds => hclosed p hlt (holds_hard hholds)

/-- Items whose nodes are reached anyway open nothing more. -/
theorem reaches_insert_iff (hdependents : r.NamesDependents difficulty)
    (hknown : r.Knows inventory) {names : List String}
    (hnames : ∀ name ∈ names, ∃ p, r.lookup? name = some p ∧ r.Reaches difficulty inventory p) :
    r.Reaches difficulty (names.foldl Inventory.insert inventory) id ↔
      r.Reaches difficulty inventory id := by
  have hknown' : r.Knows (names.foldl Inventory.insert inventory) := by
    intro item hitem
    rcases (Inventory.mem_foldl_insert_iff names inventory).1 hitem with hname | hold
    · obtain ⟨p, hlookup, -⟩ := hnames item hname
      rw [hlookup]
      exact Option.some_ne_none p
    · exact hknown item hold
  constructor
  · intro h
    rw [reaches_iff_forall hdependents hknown]
    intro isOpen hhas hclosed
    refine (reaches_iff_forall hdependents hknown').1 h isOpen ?_ hclosed
    -- The set has the nodes that are reached, so it has the new items.
    intro item hitem p hlookup hlt
    rcases (Inventory.mem_foldl_insert_iff names inventory).1 hitem with hname | hold
    · obtain ⟨q, hq, hreach⟩ := hnames item hname
      obtain rfl := Option.some.inj (hlookup.symm.trans hq)
      exact (reaches_iff_forall hdependents hknown).1 hreach isOpen hhas hclosed
    · exact hhas item hold p hlookup hlt
  · refine Reaches.mono hdependents (fun item hitem => ?_) hknown'
    exact (Inventory.mem_foldl_insert_iff names inventory).2 (Or.inr hitem)

/-- A hard gate that the player does not accept opens as an item or by a placement. -/
theorem reaches_normal_iff (hdependents : r.NamesDependents .normal) (hknown : r.Knows inventory)
    {kind : Kind} (hkind : r.kind? id = some kind) (hhard : kind.isHard = true)
    (hid : id < r.count) :
    r.Reaches .normal inventory id ↔ (∃ item ∈ inventory.items, r.lookup? item = some id) ∨
      ∃ p ∈ r.placements id, r.Reaches .normal inventory p := by
  obtain ⟨reached, hsolve⟩ := (exists_solve_iff hdependents).2 hknown
  have hreaches : ∀ p, r.Reaches .normal inventory p ↔ reached.contains p = true := by
    intro p
    simp [Reaches, hsolve]
  simp only [hreaches]
  rw [contains_iff_of_solve hdependents hsolve hid, holds_normal hkind hhard, List.any_eq_true]

end Reader

/-! ### Main statement -/

/-- Solving a frozen graph is a monotone closure. It fails on unknown items only; more items and
greater difficulty open more; items that open anyway open nothing more; and without hard tricks a
hard gate opens as an item or by a placement only. -/
theorem FlatTable.Linked.reaches_closure {table : FlatTable} {g : Graph} (h : table.Linked)
    (hfreeze : table.freeze = .ok g) :
    (∀ difficulty inventory, g.reader.Knows inventory ↔
      ∃ reached, g.reader.solve difficulty inventory = .ok reached) ∧
    (∀ difficulty inventory inventory' id, (∀ item ∈ inventory.items, item ∈ inventory'.items) →
      g.reader.Knows inventory' → g.reader.Reaches difficulty inventory id →
        g.reader.Reaches difficulty inventory' id) ∧
    (∀ inventory id, g.reader.Reaches .normal inventory id → g.reader.Reaches .hard inventory id) ∧
    (∀ difficulty inventory id, g.reader.Knows inventory → ∀ added : List NodeId,
      (∀ p ∈ added, g.reader.Reaches difficulty inventory p) →
        (g.reader.Reaches difficulty ((added.map g.name).foldl Inventory.insert inventory) id ↔
          g.reader.Reaches difficulty inventory id)) ∧
    ∀ inventory id kind, g.reader.Knows inventory → g.kind? id = some kind → kind.isHard = true →
      (g.reader.Reaches .normal inventory id ↔
        (∃ item ∈ inventory.items, g.lookup? item = some id) ∨
          ∃ p ∈ g.placements id, g.reader.Reaches .normal inventory p) := by
  have hg := numbers_of_freeze h.wellFormed h.covered hfreeze
  have hdependents : ∀ difficulty, g.reader.NamesDependents difficulty :=
    fun difficulty => g.reader_namesDependents difficulty hg.dependents_eq
  refine ⟨?_, ?_, ?_, ?_, ?_⟩
  · exact fun difficulty inventory => (Reader.exists_solve_iff (hdependents difficulty)).symm
  · intro difficulty inventory inventory' id hsubset hknown
    exact Reader.Reaches.mono (hdependents difficulty) hsubset hknown
  · exact fun _ _ => Reader.Reaches.hard hdependents
  · intro difficulty inventory id hknown added hadded
    apply Reader.reaches_insert_iff (hdependents difficulty) hknown
    intro name hname
    obtain ⟨p, hp, rfl⟩ := List.mem_map.1 hname
    have hlt : p < g.size := (hadded p hp).lt (hdependents difficulty)
    exact ⟨p, (hg.coherent h.wellFormed).lookup?_name p hlt, hadded p hp⟩
  · intro inventory id kind hknown hkind hhard
    have hid : id < g.size := Graph.lt_of_kind? hkind
    exact Reader.reaches_normal_iff (hdependents .normal) hknown hkind hhard hid

/-- Trick `h` can be had in slot `s` too, which asks for the trick. -/
def trickCompiler : Compiler where
  tables := [⟨"t", false, [("a", .root), ("h", ⟨.hardAnd, [.named "a"]⟩),
    ("s", ⟨.andSlot, [.named "h"]⟩)]⟩]

def trickGraph : Graph :=
  ⟨[⟨"a", ⟨.root, [], []⟩, "t", false⟩, ⟨"h", ⟨.hardAnd, [0], [2]⟩, "t", false⟩,
    ⟨"s", ⟨.andSlot, [1], []⟩, "t", false⟩], [[1], [2], [1]]⟩

/-- The trick is not reached without items. It is reached from its slot, with all that was
reached before, and then it is no news. -/
theorem reaches_closure_trick :
    ∃ k, (trickCompiler.compile.run {}).1 = .ok k ∧
      (k.table.link [⟨"s", "h"⟩]).1.Linked ∧
      (k.table.link [⟨"s", "h"⟩]).1.freeze = .ok trickGraph ∧
      trickGraph.reader.solve .normal {} = .ok ⟨[0]⟩ ∧
      trickGraph.reader.Knows ⟨["s"]⟩ ∧ trickGraph.reader.Reaches .normal ⟨["s"]⟩ 0 ∧
      trickGraph.reader.Reaches .normal ⟨["s"]⟩ 1 ∧ trickGraph.reader.Reaches .hard ⟨["s"]⟩ 1 ∧
      ∀ id, trickGraph.reader.Reaches .normal ⟨["h", "s"]⟩ id ↔
        trickGraph.reader.Reaches .normal ⟨["s"]⟩ id := by
  have hruns : ((trickCompiler.compile.run {}).1.map fun k =>
      (k.table.link [⟨"s", "h"⟩]).1.freeze) = .ok (.ok trickGraph) := by cbv
  obtain ⟨k, hcompile, hfreeze⟩ := exists_eq_ok_of_map hruns
  have hlinked : (k.table.link [⟨"s", "h"⟩]).1.Linked :=
    .link _ (Compiled.Built.compile {} hcompile).linked
  obtain ⟨-, hmono, hhard, hinsert, hnormal⟩ := hlinked.reaches_closure hfreeze
  have hslot : trickGraph.reader.Knows ⟨["s"]⟩ := by
    show ∀ item ∈ ["s"], trickGraph.lookup? item ≠ none
    decide
  have hnone : trickGraph.reader.solve .normal {} = .ok ⟨[0]⟩ := by cbv
  have hsolve : trickGraph.reader.solve .normal ⟨["s"]⟩ = .ok ⟨[2, 1, 0]⟩ := by cbv
  have hroot : trickGraph.reader.Reaches .normal ⟨["s"]⟩ 0 :=
    hmono .normal {} ⟨["s"]⟩ 0 (by simp) hslot ⟨_, hnone, by decide⟩
  have htrick : trickGraph.reader.Reaches .normal ⟨["s"]⟩ 1 :=
    (hnormal ⟨["s"]⟩ 1 .hardAnd hslot (by decide) rfl).2
      (Or.inr ⟨2, by decide, _, hsolve, by decide⟩)
  have hagain := fun id => hinsert .normal ⟨["s"]⟩ id hslot [1] (by simpa using htrick)
  exact ⟨k, hcompile, hlinked, hfreeze, hnone, hslot, hroot, htrick, hhard _ _ htrick, hagain⟩

end Progression

import Progression.Proofs.Flags
import Progression.Proofs.Monotonicity

/-!
The search over readers that promise nothing. Ids may be out of range, lists of dependents may
repeat or leave out nodes, and several names may stand for one node. Main statement: even so the
search ends, either with the first item that is not known or with an order of distinct nodes in
range, in which the nodes of items come first and every later node opens by those before it. Only
that nothing is left out asks for complete dependents.
-/

namespace Progression

namespace Reader

variable {r : Reader} {difficulty : Difficulty} {id : NodeId}

/-! ### The nodes of items -/

/-- The nodes of items that are in range, in the order of the items. Of a node that several items
stand for the first mention counts. -/
def itemNodes (r : Reader) (items : List String) : List NodeId :=
  ((items.filterMap r.lookup?).filter (· < r.count)).eraseDups

/-- Marking items opens their nodes behind those that are open, unless they are open already. -/
theorem order_of_markItems {items : List String} {s t : Search}
    (h : r.markItems s items = .ok t) :
    t.order = s.order ++
      (((items.filterMap r.lookup?).filter (· < r.count)).filter (· ∉ s.order)).eraseDups := by
  induction items generalizing s with
  | nil =>
      obtain rfl := Except.ok.inj h
      simp
  | cons item items ih =>
      rw [markItems] at h
      split at h
      case h_1 => contradiction
      case h_2 id hid =>
          rw [ih h, List.filterMap_cons_some hid, mark]
          split
          case isTrue hnew =>
              have hlater : ∀ ids : List NodeId, ids.filter (· ∉ s.order ++ [id]) =
                  (ids.filter (· ∉ s.order)).filter fun p => !p == id := by
                intro ids
                rw [List.filter_filter]
                refine List.filter_congr fun p _ => ?_
                rw [Bool.eq_iff_iff]
                simp [and_comm]
              rw [List.filter_cons_of_pos (by simpa using hnew.1),
                List.filter_cons_of_pos (by simpa using hnew.2), List.eraseDups_cons, hlater,
                List.append_assoc, List.singleton_append]
          case isFalse hold =>
              by_cases hlt : id < r.count
              · have hopen : id ∈ s.order := by
                  by_contra hnot
                  exact hold ⟨hlt, hnot⟩
                rw [List.filter_cons_of_pos (by simpa using hlt),
                  List.filter_cons_of_neg (by simpa using hopen)]
              · rw [List.filter_cons_of_neg (by simpa using hlt)]

/-- The nodes of items open in the order of the items. -/
theorem order_of_markItems_empty {items : List String} {s : Search}
    (h : r.markItems {} items = .ok s) : s.order = r.itemNodes items := by
  rw [order_of_markItems h, itemNodes]
  simp

/-! ### Main statement -/

/-- What holds of the open nodes on any reader: they are distinct and in range, the flags tell them
from the others, those of items come first, and the rule of every later one holds of exactly the
nodes before it. -/
structure Discovers (r : Reader) (difficulty : Difficulty) (items : List String) (s : Sweep) : Prop
    extends r.IsOrder s.order where
  contains_iff : ∀ id, s.contains id = true ↔ id ∈ s.order
  length_eq : s.order.length = s.flags.count true
  itemNodes_first : r.itemNodes items <+: s.order
  holds_later : ∀ before id after, s.order = before ++ id :: after →
    (r.itemNodes items).length ≤ before.length →
      r.holds difficulty (before.contains ·) id = true

/-- Behind the nodes of items, nodes open by their rules. -/
theorem opensAfter_of_solve {inventory : Inventory} {order : List NodeId}
    (h : r.solve difficulty inventory = .ok ⟨order⟩) :
    ∃ opened, order = r.itemNodes inventory.items ++ opened ∧
      r.OpensAfter difficulty (r.itemNodes inventory.items) opened := by
  rw [solve] at h
  cases hmark : r.markItems {} inventory.items with
  | error e =>
      rw [hmark] at h
      contradiction
  | ok t =>
      rw [hmark] at h
      obtain rfl : r.drain difficulty t.order (t.queue ++ List.range r.count) = order :=
        congrArg Reached.order (Except.ok.inj h)
      rw [← order_of_markItems_empty hmark]
      exact exists_drain_eq r difficulty t.order _

theorem Keeps.discovers {s : Sweep} {inventory : Inventory} (h : r.Keeps s)
    (hsolve : r.solve difficulty inventory = .ok ⟨s.order⟩) :
    r.Discovers difficulty inventory.items s := by
  obtain ⟨opened, horder, hopened⟩ := opensAfter_of_solve hsolve
  refine ⟨h.toIsOrder, h.contains_iff, h.length_eq, ⟨opened, horder.symm⟩,
    fun before id after heq hlate => ?_⟩
  -- The node comes behind those of the items, so it has opened by its rule.
  obtain ⟨mid, rfl⟩ :=
    List.prefix_of_prefix_length_le ⟨opened, horder.symm⟩ ⟨id :: after, heq.symm⟩ hlate
  rw [horder, List.append_assoc] at heq
  obtain rfl := List.append_cancel_left heq
  exact hopened.of_append.2.2

/-- A search fails with the first item that is not known and ends otherwise. -/
theorem solve_cases (r : Reader) (difficulty : Difficulty) (inventory : Inventory) :
    (∃ before item after, inventory.items = before ++ item :: after ∧
      (∀ i ∈ before, r.lookup? i ≠ none) ∧ r.lookup? item = none ∧
      r.solve difficulty inventory = .error (.unknownItem item)) ∨
    (r.Knows inventory ∧ ∃ reached, r.solve difficulty inventory = .ok reached) := by
  cases hfind : inventory.items.find? (fun i => (r.lookup? i).isNone) with
  | some item =>
      left
      obtain ⟨hnone, before, after, hsplit, hbefore⟩ := List.find?_eq_some_iff_append.1 hfind
      refine ⟨before, item, after, hsplit, fun i hi hlookup => ?_,
        Option.isNone_iff_eq_none.1 hnone, solve_eq_error hfind⟩
      have := hbefore i hi
      rw [hlookup] at this
      contradiction
  | none =>
      right
      have hknown : r.Knows inventory := by
        intro item hitem hlookup
        have := List.find?_eq_none.1 hfind item hitem
        rw [hlookup] at this
        contradiction
      obtain ⟨s, hs, -⟩ := markItems_eq_ok {} hknown
      exact ⟨hknown, _, by rw [solve, hs]; rfl⟩

/-- On any reader a search ends, with flags or without. It fails with the least item that is not
known, or it discovers nodes one after another; and if the reader names all dependents, these are
the least set that has the items and is closed under the rules. -/
theorem solve_discovers (r : Reader) (difficulty : Difficulty) (names : List String) :
    ∃ items : List String, items.Pairwise (· < ·) ∧ (∀ name, name ∈ items ↔ name ∈ names) ∧
      ((∃ before item after, items = before ++ item :: after ∧
          (∀ i ∈ before, r.lookup? i ≠ none) ∧ r.lookup? item = none ∧
          r.solve difficulty (.ofList names) = .error (.unknownItem item) ∧
          r.search difficulty (.ofList names) = .error (.unknownItem item)) ∨
        ∃ s, (∀ item ∈ items, r.lookup? item ≠ none) ∧
          r.solve difficulty (.ofList names) = .ok ⟨s.order⟩ ∧
          r.search difficulty (.ofList names) = .ok s ∧
          r.Discovers difficulty items s ∧
          (r.NamesDependents difficulty →
            r.HasItems (.ofList names) s.contains ∧
            r.IsClosed difficulty s.contains ∧
            ∀ isOpen, r.HasItems (.ofList names) isOpen → r.IsClosed difficulty isOpen →
              ∀ id, s.contains id = true → isOpen id = true)) := by
  refine ⟨(Inventory.ofList names).items, Inventory.pairwise_ofList names,
    fun name => Inventory.mem_ofList_iff, ?_⟩
  rcases search_spec r difficulty (.ofList names) with
    ⟨e, hsearch, hfail⟩ | ⟨s, hsearch, hsolve, hkeeps⟩
  · left
    rcases solve_cases r difficulty (.ofList names) with
      ⟨before, item, after, hitems, hbefore, hnone, herror⟩ | ⟨-, reached, hsolve⟩
    · obtain rfl := Except.error.inj (hfail.symm.trans herror)
      exact ⟨before, item, after, hitems, hbefore, hnone, herror, hsearch⟩
    · rw [hfail] at hsolve
      contradiction
  · right
    have hknown := lookup?_ne_none_of_solve hsolve
    refine ⟨s, hknown, hsolve, hsearch, hkeeps.discovers hsolve, fun hdependents => ?_⟩
    obtain ⟨reached, hreached, hleast⟩ := solve_eq_ok hdependents hknown
    obtain rfl := Except.ok.inj (hsolve.symm.trans hreached)
    rw [hkeeps.contains_eq]
    exact hleast

/-- Nodes 0, 1 and 2 ask for each other, and a root lies out of range. Two names stand for node 1
and one for no node, and every node has the same dependents, some of them twice. -/
def strayReader : Reader where
  count := 3
  lookup? name := if name = "a" ∨ name = "b" then some 1 else if name = "z" then some 9 else none
  name _ := ""
  kind? id := [(0, Kind.or), (1, .and), (2, .count 1), (7, .root)].lookup id
  parents id := if id = 0 then [1, 9] else if id = 7 then [] else [0]
  placements _ := []
  dependents _ := [2, 0, 2, 7, 1]

theorem strayReader_namesDependents : strayReader.NamesDependents .normal := by
  intro isOpen p id _ _ hopen
  rw [holds_eq, Option.any_eq_true] at hopen
  obtain ⟨kind, hkind, -⟩ := hopen
  obtain ⟨before, after, hnodes, -⟩ := List.lookup_eq_some_iff.1 hkind
  have hid : id ∈ [(0, Kind.or), (1, .and), (2, .count 1), (7, .root)].map Prod.fst := by
    rw [hnodes]
    simp
  have hlisted : id = 0 ∨ id = 1 ∨ id = 2 ∨ id = 7 := by simpa using hid
  show id ∈ [2, 0, 2, 7, 1]
  rcases hlisted with rfl | rfl | rfl | rfl <;> decide

theorem solve_discovers_stray :
    strayReader.solve .normal (.ofList ["z", "b", "a"]) = .ok ⟨[1, 2, 0]⟩ ∧
      ∃ items s, (∀ name, name ∈ items ↔ name ∈ ["z", "b", "a"]) ∧
        strayReader.search .normal (.ofList ["z", "b", "a"]) = .ok s ∧
        strayReader.Discovers .normal items s ∧
        strayReader.IsClosed .normal s.contains := by
  have hsolve : strayReader.solve .normal (.ofList ["z", "b", "a"]) = .ok ⟨[1, 2, 0]⟩ := by cbv
  obtain ⟨items, -, hitems, hcases⟩ := solve_discovers strayReader .normal ["z", "b", "a"]
  rcases hcases with ⟨_, _, _, -, -, -, herror, -⟩ | ⟨s, -, -, hsearch, hdiscovers, hleast⟩
  · rw [hsolve] at herror
    contradiction
  · exact ⟨hsolve, items, s, hitems, hsearch, hdiscovers,
      (hleast strayReader_namesDependents).2.1⟩

end Reader

end Progression

import Progression.Proofs.Flattening
import Progression.Proofs.Sorting

/-!
The naming loop over a map. A rule is taken out of the map of rules, its gates are named one after
the other, and it is put back. A name is passed over if it is the owner's, if a rule in the map
has it or one that was made in the same round, and if it is mentioned. So what is passed over
changes with every name that is given. Main statement: in the end it comes to the same as passing
over the names that are defined or mentioned in the rules as they are written. Names given before
never stand in the way, for each of them tells its owner, and an owner is visited once.
-/

namespace Progression

/-- Rules under their names. -/
abbrev RuleMap := Std.TreeMap String Rule

namespace Flatten

/-! ### The loop -/

/-- What the names for the gates of `owner` are compared with. -/
structure Used where
  owner : String
  /-- All rules but the owner. -/
  rules : RuleMap
  /-- The rules made in this round. -/
  lifted : RuleMap
  /-- Every name that is mentioned in the rulebook. -/
  referenced : Std.TreeSet String

namespace Used

/-- Whether the name may be given. -/
def accepts (used : Used) (candidate : String) : Bool :=
  candidate != used.owner && !used.rules.contains candidate && !used.lifted.contains candidate &&
    !used.referenced.contains candidate

/-- The names that are not accepted. -/
def names (used : Used) : List String :=
  used.owner :: (used.rules.keys ++ used.lifted.keys ++ used.referenced.toList)

theorem accepts_iff {used : Used} {candidate : String} :
    used.accepts candidate = true ↔ candidate ∉ used.names := by
  simp only [accepts, names, Bool.and_eq_true, bne_iff_ne, Bool.not_eq_true',
    Bool.eq_false_iff, Ne, Std.TreeMap.contains_iff_mem, Std.TreeSet.contains_iff_mem,
    List.mem_cons, List.mem_append, Std.TreeMap.mem_keys, Std.TreeSet.mem_toList, not_or, and_assoc]

/-- How many of the names the search from `k` on can still meet. -/
def left (used : Used) (k : Nat) : Nat :=
  used.names.countP fun name => (List.range k).all fun j => name != numbered used.owner j

theorem left_succ (used : Used) (k : Nat) :
    used.left (k + 1) = (used.names.filter fun name =>
      (List.range k).all fun j => name != numbered used.owner j).countP
        fun name => name != numbered used.owner k := by
  rw [List.countP_filter, left]
  refine List.countP_congr fun name _ => ?_
  simp [List.range_succ, and_comm]

/-- A name that was met is not met again. -/
theorem left_succ_lt {used : Used} {k : Nat}
    (h : ¬ used.accepts (numbered used.owner k) = true) : used.left (k + 1) < used.left k := by
  have hmem : numbered used.owner k ∈ used.names := not_not.1 (mt accepts_iff.2 h)
  have hnew : ∀ j ∈ List.range k, numbered used.owner k ≠ numbered used.owner j :=
    fun j hj heq => Nat.ne_of_gt (List.mem_range.1 hj) (numbered_inj heq).2
  rw [left_succ, left, List.countP_eq_length_filter (p := fun name =>
    (List.range k).all fun j => name != numbered used.owner j), List.countP_lt_length_iff]
  refine ⟨numbered used.owner k, List.mem_filter.2 ⟨hmem, ?_⟩, by simp⟩
  simpa using hnew

/-- The first number from `k` on whose name is accepted. -/
def probe (used : Used) (k : Nat) : Nat :=
  if used.accepts (numbered used.owner k) then k else used.probe (k + 1)
termination_by used.left k
decreasing_by exact left_succ_lt ‹_›

/-- Replaces the gates among the parents by names, from the number after `k` on. What is made of
them joins the rules made in this round. -/
def nameParents (used : Used) (source : String) (k : Nat) : List Parent → List Parent × RuleMap
  | [] => ([], used.lifted)
  | .named name :: ps =>
    let (parents, lifted) := used.nameParents source k ps
    (.named name :: parents, lifted)
  | .inline kind parents :: ps =>
    let k := used.probe (k + 1)
    let name := numbered used.owner k
    let lifted := used.lifted.insert name ⟨name, ⟨kind, parents⟩, source, false⟩
    let (parents, lifted) := nameParents { used with lifted } source k ps
    (.named name :: parents, lifted)

end Used

/-- How far a round has come: the rules, and those it has made, which are not among them yet. -/
structure Round where
  rules : RuleMap
  lifted : RuleMap := ∅

/-- Takes a rule out, names its gates and puts it back. -/
def Round.visit (referenced : Std.TreeSet String) (round : Round) (owner : String) : Round :=
  match round.rules[owner]? with
  | none => round
  | some r =>
    let rules := round.rules.erase owner
    let used : Used := ⟨owner, rules, round.lifted, referenced⟩
    let (parents, lifted) := used.nameParents r.source 0 r.gate.parents
    ⟨rules.insert owner { r with gate := { r.gate with parents } }, lifted⟩

/-- Runs rounds until one of them makes no rule, each over the rules that the last one made; none
if more than `left` rounds make some. -/
def nameRounds (referenced : Std.TreeSet String) (left : Nat) (rules : RuleMap)
    (pending : List String) : Option (RuleMap × FlattenStats) :=
  let round := pending.foldl (Round.visit referenced) ⟨rules, ∅⟩
  if round.lifted.isEmpty then some (round.rules, {})
  else
    match left with
    | 0 => none
    | left + 1 =>
      (nameRounds referenced left (round.rules ∪ round.lifted) round.lifted.keys).map
        fun (rules, stats) =>
          (rules, ⟨stats.rounds + 1, stats.synthesized + round.lifted.size⟩)

/-- Puts rules into a map. -/
def addRules (rules : RuleMap) (rs : List Rule) : RuleMap :=
  rs.foldl (fun rules r => rules.insert r.name r) rules

/-- A rule whose gates have all been named. -/
def flatRule (r : Rule) : FlatRule :=
  ⟨r.name, r.gate.kind, r.gate.named, r.source, r.placeable⟩

end Flatten

/-- Flattens a rulebook in the map of its rules, with the names that the loop gives. -/
def Rulebook.flattenMap? (book : Rulebook) (cap : Nat) : Option FlatTable :=
  let rules := Flatten.addRules ∅ book.rules
  let referenced := Std.TreeSet.ofList book.references
  (Flatten.nameRounds referenced (max cap (Flatten.deepest book)) rules rules.keys).map
    fun (rules, stats) =>
      Flatten.ofRules (rules.toList.map fun (_, r) => Flatten.flatRule r) stats

namespace Flatten

/-! ### Maps and lists of rules -/

/-- The map holds these rules, whatever their order. -/
structure HasRules (rules : RuleMap) (rs : List Rule) : Prop where
  nodup : (rs.map Rule.name).Nodup
  getElem?_eq_some_iff : ∀ name r, rules[name]? = some r ↔ r ∈ rs ∧ r.name = name

namespace HasRules

variable {rules lifted : RuleMap} {rs qs : List Rule} {r : Rule}

theorem empty : HasRules ∅ [] where
  nodup := List.nodup_nil
  getElem?_eq_some_iff := by simp

theorem perm (h : HasRules rules rs) (hperm : rs.Perm qs) : HasRules rules qs where
  nodup := (hperm.map Rule.name).nodup_iff.1 h.nodup
  getElem?_eq_some_iff name r := by rw [h.getElem?_eq_some_iff, hperm.mem_iff]

theorem contains_iff (h : HasRules rules rs) {name : String} :
    rules.contains name = true ↔ name ∈ rs.map Rule.name := by
  rw [Std.TreeMap.contains_eq_isSome_getElem?, Option.isSome_iff_exists, List.mem_map]
  exact exists_congr fun r => h.getElem?_eq_some_iff name r

theorem getElem?_self (h : HasRules rules rs) (hr : r ∈ rs) : rules[r.name]? = some r :=
  (h.getElem?_eq_some_iff r.name r).2 ⟨hr, rfl⟩

theorem insert (h : HasRules rules rs) (hnew : r.name ∉ rs.map Rule.name) :
    HasRules (rules.insert r.name r) (r :: rs) where
  nodup := List.nodup_cons.2 ⟨hnew, h.nodup⟩
  getElem?_eq_some_iff name q := by
    simp only [Std.TreeMap.getElem?_insert, List.mem_cons, Std.compare_eq_iff_eq]
    by_cases hname : r.name = name
    · have hold : q ∈ rs → q.name ≠ name := fun hq heq =>
        hnew (List.mem_map.2 ⟨q, hq, heq.trans hname.symm⟩)
      rw [if_pos hname, Option.some.injEq]
      grind
    · rw [if_neg hname, h.getElem?_eq_some_iff]
      grind

theorem erase (h : HasRules rules (r :: rs)) : HasRules (rules.erase r.name) rs where
  nodup := (List.nodup_cons.1 h.nodup).2
  getElem?_eq_some_iff name q := by
    simp only [Std.TreeMap.getElem?_erase, Std.compare_eq_iff_eq]
    by_cases hname : r.name = name
    · have hold : q ∈ rs → q.name ≠ name := fun hq heq =>
        (List.nodup_cons.1 h.nodup).1 (List.mem_map.2 ⟨q, hq, heq.trans hname.symm⟩)
      rw [if_pos hname]
      grind
    · rw [if_neg hname, h.getElem?_eq_some_iff, List.mem_cons]
      grind

theorem addRules (h : HasRules rules rs) (hnodup : ((rs ++ qs).map Rule.name).Nodup) :
    HasRules (addRules rules qs) (rs ++ qs) := by
  induction qs generalizing rules rs with
  | nil => rwa [List.append_nil]
  | cons q qs ih =>
      have hperm : (q :: rs ++ qs).Perm (rs ++ q :: qs) := List.perm_middle.symm
      have hnodup' := (hperm.map Rule.name).nodup_iff.2 hnodup
      have hnew : q.name ∉ rs.map Rule.name := by
        rw [List.cons_append, List.map_cons, List.map_append, List.nodup_cons,
          List.mem_append, not_or] at hnodup'
        exact hnodup'.1.1
      exact (ih (h.insert hnew) hnodup').perm hperm

theorem union (h : HasRules rules rs) (h' : HasRules lifted qs)
    (hnodup : ((rs ++ qs).map Rule.name).Nodup) : HasRules (rules ∪ lifted) (rs ++ qs) where
  nodup := hnodup
  getElem?_eq_some_iff name r := by
    rw [Std.TreeMap.getElem?_union, List.mem_append]
    rw [List.map_append] at hnodup
    have hapart := List.disjoint_of_nodup_append hnodup
    cases hq : lifted[name]? with
    | none =>
        have hnone : ∀ q ∈ qs, q.name ≠ name := by
          rintro q hmem rfl
          rw [h'.getElem?_self hmem] at hq
          contradiction
        rw [Option.none_or, h.getElem?_eq_some_iff]
        grind
    | some q =>
        obtain ⟨hmem, rfl⟩ := (h'.getElem?_eq_some_iff name q).1 hq
        have hold : ∀ r ∈ rs, r.name ≠ q.name :=
          fun r hr heq => hapart (heq ▸ List.mem_map_of_mem hr) (List.mem_map_of_mem hmem)
        rw [Option.some_or, Option.some.injEq]
        constructor
        · rintro rfl
          exact ⟨Or.inr hmem, rfl⟩
        · rintro ⟨hr | hr, heq⟩
          · exact absurd heq (hold r hr)
          · exact List.inj_on_of_nodup_map h'.nodup hmem hr heq.symm

theorem toList_perm (h : HasRules rules rs) :
    rules.toList.Perm (rs.map fun r => (r.name, r)) := by
  have hnodup : rules.toList.Nodup :=
    Std.TreeMap.distinct_keys_toList.imp fun {a b} hne heq =>
      hne (Std.compare_eq_iff_eq.2 (congrArg Prod.fst heq))
  have hnodup' : (rs.map fun r => (r.name, r)).Nodup :=
    List.Nodup.of_map Prod.fst (by simpa [Function.comp_def] using h.nodup)
  rw [List.perm_ext_iff_of_nodup hnodup hnodup']
  rintro ⟨name, r⟩
  rw [Std.TreeMap.mem_toList_iff_getElem?_eq_some, h.getElem?_eq_some_iff, List.mem_map]
  constructor
  · rintro ⟨hr, rfl⟩
    exact ⟨r, hr, rfl⟩
  · rintro ⟨q, hq, heq⟩
    obtain ⟨rfl, rfl⟩ := Prod.mk.inj heq
    exact ⟨hq, rfl⟩

theorem map_toList_perm (h : HasRules rules rs) : (rules.toList.map Prod.snd).Perm rs := by
  have hperm := h.toList_perm.map Prod.snd
  rwa [List.map_map, Function.comp_def, List.map_id'] at hperm

theorem size_eq (h : HasRules rules rs) : rules.size = rs.length := by
  rw [← Std.TreeMap.length_toList, h.toList_perm.length_eq, List.length_map]

theorem isEmpty_eq (h : HasRules rules rs) : rules.isEmpty = rs.isEmpty := by
  rw [Std.TreeMap.isEmpty_eq_size_eq_zero, h.size_eq]
  cases rs <;> rfl

/-- The keys are the names, in the order of the map. -/
theorem exists_keys_eq (h : HasRules rules rs) :
    ∃ todo : List Rule, todo.Perm rs ∧ rules.keys = todo.map Rule.name := by
  refine ⟨rules.toList.map Prod.snd, h.map_toList_perm, ?_⟩
  rw [← Std.TreeMap.map_fst_toList_eq_keys, List.map_map]
  refine List.map_congr_left fun entry hentry => ?_
  have hget := Std.TreeMap.mem_toList_iff_getElem?_eq_some.1 hentry
  exact ((h.getElem?_eq_some_iff _ _).1 hget).2.symm

end HasRules

/-! ### The search in the loop -/

section Search

variable {used : Used} {taken : Std.TreeSet String} {k : Nat}

/-- The number found is the first one from the start on whose name is accepted. -/
theorem probe_spec (used : Used) (k : Nat) :
    k ≤ used.probe k ∧ used.accepts (numbered used.owner (used.probe k)) = true ∧
      ∀ j, k ≤ j → j < used.probe k → used.accepts (numbered used.owner j) = false := by
  fun_induction Used.probe used k with
  | case1 k haccepts => exact ⟨Nat.le_refl k, haccepts, by omega⟩
  | case2 k hrefused ih =>
      obtain ⟨hle, haccepts, hbefore⟩ := ih
      refine ⟨by omega, haccepts, fun j hj hlt => ?_⟩
      by_cases hjk : j = k
      · exact hjk ▸ Bool.eq_false_iff.2 hrefused
      · exact hbefore j (by omega) hlt

/-- Behind number `k` the loop accepts the names that are not taken. -/
def Used.Agrees (used : Used) (taken : Std.TreeSet String) (k : Nat) : Prop :=
  ∀ j, k < j →
    (used.accepts (numbered used.owner j) = true ↔ taken.contains (numbered used.owner j) = false)

theorem Used.Agrees.probe_eq (h : used.Agrees taken k) :
    used.probe (k + 1) = freeNumber used.owner taken (k + 1) := by
  obtain ⟨hle, haccepts, hrefused⟩ := probe_spec used (k + 1)
  obtain ⟨hle', hfree, htaken⟩ := freeNumber_spec used.owner taken (k + 1)
  rcases Nat.lt_trichotomy (used.probe (k + 1)) (freeNumber used.owner taken (k + 1)) with
    hlt | heq | hlt
  · rw [h _ (by omega), htaken _ hle hlt] at haccepts
    contradiction
  · exact heq
  · rw [← h _ (by omega), hrefused _ hle' hlt] at hfree
    contradiction

/-- A name that is given stands in the way of no later number. -/
theorem Used.Agrees.insert (h : used.Agrees taken k) {j : Nat} (hj : k < j) (r : Rule) :
    Used.Agrees { used with lifted := used.lifted.insert (numbered used.owner j) r } taken j := by
  intro i hi
  rw [← h i (by omega)]
  have hne : numbered used.owner j ≠ numbered used.owner i :=
    fun heq => Nat.ne_of_lt hi (numbered_inj heq).2
  simp [Used.accepts, Std.TreeMap.contains_insert, hne]

theorem Used.Agrees.nameParents_eq {owner : Rule} (h : used.Agrees taken k)
    (howner : used.owner = owner.name) (ps : List Parent) :
    used.nameParents owner.source k ps =
      ((liftParents owner taken k ps).1.map .named,
        addRules used.lifted (liftParents owner taken k ps).2) := by
  induction ps generalizing used k with
  | nil => rfl
  | cons p ps ih =>
      cases p with
      | named name =>
          rw [Used.nameParents, ih h howner, liftParents_named]
          rfl
      | inline kind parents =>
          have hnext : used.probe (k + 1) = nextNumber owner taken k := by
            rw [h.probe_eq, howner, nextNumber]
          have hlt : k < nextNumber owner taken k :=
            (freeNumber_spec owner.name taken (k + 1)).1
          rw [Used.nameParents, liftParents_inline]
          simp only [hnext]
          rw [ih (h.insert hlt _) howner, howner]
          rfl

end Search

/-! ### A round -/

/-- A flat rule as a rule. -/
def asRule (f : FlatRule) : Rule :=
  ⟨f.name, ⟨f.kind, f.parents.map .named⟩, f.source, f.placeable⟩

@[simp] theorem asRule_name (f : FlatRule) : (asRule f).name = f.name := rfl

@[simp] theorem flatRule_asRule (f : FlatRule) : flatRule (asRule f) = f := by
  simp [flatRule, asRule, Gate.named, List.filterMap_map, Function.comp_def, Parent.name?]

/-- Where a round stands: at the rules that it has still to visit, those that have no gates any
more, and those it has made. A name that is not taken comes from a rule that was visited. -/
structure Stands (book : Rulebook) (round : Round) (todo : List Rule) (flat : List FlatRule)
    (made : List Rule) : Prop where
  rules : HasRules round.rules (todo ++ flat.map asRule)
  added : HasRules round.lifted made
  nodup : ((todo ++ flat.map asRule ++ made).map Rule.name).Nodup
  written : book.names ⊆ (todo ++ flat.map asRule).map Rule.name
  given : ∀ name ∈ (todo ++ flat.map asRule ++ made).map Rule.name,
    book.taken.contains name = true ∨ ∃ f ∈ flat, ∃ k, name = numbered f.name k

namespace Stands

variable {book : Rulebook} {round : Round} {rules : RuleMap} {r : Rule} {todo made : List Rule}
  {flat : List FlatRule}

/-- The owner has not been visited before, so what is free behind its name is not in use. -/
theorem notMem_of_free (h : Stands book round (r :: todo) flat made) {k : Nat}
    (hfree : book.taken.contains (numbered r.name k) = false) :
    numbered r.name k ∉ (r :: todo ++ flat.map asRule ++ made).map Rule.name := by
  intro hmem
  rcases h.given _ hmem with htaken | ⟨f, hf, j, heq⟩
  · rw [hfree] at htaken
    contradiction
  · have hvisited : r.name ∈ (todo ++ flat.map asRule).map Rule.name := by
      rw [(numbered_inj heq).1, ← asRule_name]
      exact List.mem_map_of_mem (List.mem_append_right _ (List.mem_map_of_mem hf))
    exact (List.nodup_cons.1 h.rules.nodup).1 hvisited

theorem agrees (h : Stands book round (r :: todo) flat made) :
    Used.Agrees ⟨r.name, round.rules.erase r.name, round.lifted, .ofList book.references⟩
      book.taken 0 := by
  intro j _
  have hne := numbered_ne_owner r.name j
  simp only [Used.accepts, Bool.and_eq_true, bne_iff_ne, Bool.not_eq_true', Bool.eq_false_iff, Ne,
    h.rules.erase.contains_iff, h.added.contains_iff, Std.TreeSet.contains_ofList,
    List.contains_iff_mem]
  constructor
  · rintro ⟨⟨⟨-, hrules⟩, -⟩, hmention⟩ htaken
    rcases Rulebook.taken_contains_iff.1 htaken with hname | hmention'
    · rcases List.mem_cons.1 (h.written hname) with heq | hother
      · exact hne heq
      · exact hrules hother
    · exact hmention hmention'
  · intro hfree
    have hnew := h.notMem_of_free (Bool.eq_false_iff.2 hfree)
    rw [List.map_append, List.mem_append, not_or] at hnew
    exact ⟨⟨⟨hne, fun hmem => hnew.1 (List.mem_cons_of_mem _ hmem)⟩, hnew.2⟩,
      fun hmention => hfree (Rulebook.taken_contains_iff.2 (Or.inr hmention))⟩

theorem visit_eq (h : Stands book round (r :: todo) flat made) :
    round.visit (.ofList book.references) r.name =
      ⟨(round.rules.erase r.name).insert r.name (asRule (lift book.taken r).1),
        addRules round.lifted (lift book.taken r).2⟩ := by
  rw [Round.visit, h.rules.getElem?_self List.mem_cons_self]
  simp only [h.agrees.nameParents_eq rfl]
  rfl

/-- The names after a visit are those from before and the given ones. -/
theorem names_perm (todo made : List Rule) (flat : List FlatRule) (taken : Std.TreeSet String)
    (r : Rule) :
    ((todo ++ (flat ++ [(lift taken r).1]).map asRule ++ (made ++ (lift taken r).2)).map
      Rule.name).Perm
      ((r :: todo ++ flat.map asRule ++ made).map Rule.name ++
        (lift taken r).2.map Rule.name) := by
  have hmiddle : (todo.map Rule.name ++ flat.map FlatRule.name ++ r.name ::
      (made.map Rule.name ++ (lift taken r).2.map Rule.name)).Perm _ := List.perm_middle
  simpa [Function.comp_def] using hmiddle

/-- No name is given twice, nor one that is there already. -/
theorem nodup_append_lift (h : Stands book round (r :: todo) flat made) :
    ((r :: todo ++ flat.map asRule ++ made).map Rule.name ++
      (lift book.taken r).2.map Rule.name).Nodup := by
  obtain ⟨numbers, hnames, hrising, hfree⟩ := names_liftParents r book.taken 0 r.gate.parents
  rw [lift_snd, hnames]
  refine h.nodup.append ?_ ?_
  · exact List.Nodup.map (fun i j heq => (numbered_inj heq).2) (hrising.imp Nat.ne_of_lt)
  · intro name hold hnew
    obtain ⟨j, hj, rfl⟩ := List.mem_map.1 hnew
    exact h.notMem_of_free (hfree j hj).2 hold

theorem visit (h : Stands book round (r :: todo) flat made) :
    Stands book (round.visit (.ofList book.references) r.name) todo
      (flat ++ [(lift book.taken r).1]) (made ++ (lift book.taken r).2) := by
  have hperm := names_perm todo made flat book.taken r
  have hnodup := hperm.nodup_iff.2 h.nodup_append_lift
  have hrules : (asRule (lift book.taken r).1 :: (todo ++ flat.map asRule)).Perm
      (todo ++ (flat ++ [(lift book.taken r).1]).map asRule) := by
    rw [List.map_append, List.map_singleton, ← List.append_assoc]
    exact (List.perm_append_singleton _ _).symm
  have hnew : (asRule (lift book.taken r).1).name ∉ (todo ++ flat.map asRule).map Rule.name :=
    (List.nodup_cons.1 h.rules.nodup).1
  rw [h.visit_eq]
  refine ⟨(h.rules.erase.insert hnew).perm hrules, ?_, hnodup, ?_, ?_⟩
  · rw [List.map_append] at hnodup
    exact h.added.addRules hnodup.of_append_right
  · exact fun name hname => (hrules.map Rule.name).mem_iff.1 (h.written hname)
  · intro name hname
    rcases List.mem_append.1 (hperm.mem_iff.1 hname) with hold | hgiven
    · refine (h.given name hold).imp_right fun ⟨f, hf, k, heq⟩ => ?_
      exact ⟨f, List.mem_append_left _ hf, k, heq⟩
    · obtain ⟨q, hq, rfl⟩ := List.mem_map.1 hgiven
      obtain ⟨k, hk, -⟩ := descends_of_mem_lift hq
      exact Or.inr ⟨_, List.mem_append_right _ List.mem_cons_self, k, hk⟩

/-- A whole round does to its rules what `lift` does to each of them. -/
theorem run (h : Stands book round todo flat made) :
    Stands book ((todo.map Rule.name).foldl (Round.visit (.ofList book.references)) round) []
      (flat ++ stripped book.taken todo) (made ++ lifted book.taken todo) := by
  induction todo generalizing round flat made with
  | nil => simpa [stripped, lifted] using h
  | cons r todo ih =>
      have hrest := ih h.visit
      simpa [stripped, lifted, List.append_assoc] using hrest

/-- The rules that were made are visited in the next round. -/
theorem next (h : Stands book round [] flat made) (hperm : todo.Perm made) :
    Stands book ⟨round.rules ∪ round.lifted, ∅⟩ todo flat [] := by
  have hrules : (flat.map asRule ++ made).Perm (todo ++ flat.map asRule) :=
    List.perm_append_comm.trans (hperm.symm.append_right _)
  have hnames := hrules.map Rule.name
  refine ⟨(h.rules.union h.added h.nodup).perm hrules, .empty, ?_, ?_, ?_⟩
  · rw [List.append_nil]
    exact hnames.nodup_iff.1 h.nodup
  · exact fun name hname => hnames.mem_iff.1
      (List.map_subset _ (List.subset_append_left _ _) (h.written hname))
  · rw [List.append_nil]
    exact fun name hname => h.given name (hnames.mem_iff.2 hname)

end Stands

/-! ### All rounds -/

section Rounds

variable {book : Rulebook} {rules : RuleMap} {names : List String} {round : Round}
  {todo pending : List Rule} {flat later : List FlatRule} {stats : FlattenStats} {left : Nat}
  {referenced : Std.TreeSet String}

theorem nameRounds_of_none (hround : names.foldl (Round.visit referenced) ⟨rules, ∅⟩ = round)
    (hnone : round.lifted.isEmpty = true) (left : Nat) :
    nameRounds referenced left rules names = some (round.rules, {}) := by
  cases left <;> rw [nameRounds] <;> simp only [hround, hnone, if_true]

theorem nameRounds_succ (hround : names.foldl (Round.visit referenced) ⟨rules, ∅⟩ = round)
    (hsome : round.lifted.isEmpty = false) (left : Nat) :
    nameRounds referenced (left + 1) rules names =
      (nameRounds referenced left (round.rules ∪ round.lifted) round.lifted.keys).map
        fun (result : RuleMap × FlattenStats) =>
          (result.1, ⟨result.2.rounds + 1, result.2.synthesized + round.lifted.size⟩) := by
  rw [nameRounds]
  simp only [hround, hsome, Bool.false_eq_true, if_false]

theorem stripped_perm (taken : Std.TreeSet String) (hperm : pending.Perm todo) :
    (stripped taken pending).Perm (stripped taken todo) :=
  hperm.map _

theorem lifted_perm (taken : Std.TreeSet String) (hperm : pending.Perm todo) :
    (lifted taken pending).Perm (lifted taken todo) :=
  hperm.flatMap_right _

namespace Stands

theorem exists_nameRounds_of_none (h : Stands book ⟨rules, ∅⟩ todo flat [])
    (hperm : pending.Perm todo) (hnone : lifted book.taken pending = []) (left : Nat) :
    ∃ rules', nameRounds (.ofList book.references) left rules (todo.map Rule.name) =
        some (rules', {}) ∧ HasRules rules' ((flat ++ stripped book.taken pending).map asRule) := by
  have hrun := h.run
  have hnone' : lifted book.taken todo = [] :=
    (hnone ▸ lifted_perm book.taken hperm).symm.eq_nil
  have hempty := hrun.added.isEmpty_eq
  rw [hnone'] at hempty
  refine ⟨_, nameRounds_of_none rfl hempty left, hrun.rules.perm ?_⟩
  exact ((stripped_perm book.taken hperm).symm.append_left flat).map asRule

/-- If the rounds with fixed names end, the loop ends after as many, with the same rules. The
order in which it takes them up is that of the map. -/
theorem exists_nameRounds (h : Stands book ⟨rules, ∅⟩ todo flat []) (hperm : pending.Perm todo)
    (hrounds : rounds left book.taken pending = some (later, stats)) :
    ∃ rules', nameRounds (.ofList book.references) left rules (todo.map Rule.name) =
        some (rules', stats) ∧ HasRules rules' ((flat ++ later).map asRule) := by
  induction left generalizing rules todo pending flat later stats with
  | zero =>
      by_cases hnone : lifted book.taken pending = []
      · rw [rounds_of_none hnone] at hrounds
        obtain ⟨rfl, rfl⟩ := Prod.mk.inj (Option.some.inj hrounds)
        exact h.exists_nameRounds_of_none hperm hnone 0
      · rw [rounds_zero hnone] at hrounds
        contradiction
  | succ left ih =>
      by_cases hnone : lifted book.taken pending = []
      · rw [rounds_of_none hnone] at hrounds
        obtain ⟨rfl, rfl⟩ := Prod.mk.inj (Option.some.inj hrounds)
        exact h.exists_nameRounds_of_none hperm hnone (left + 1)
      · rw [rounds_succ hnone, Option.map_eq_some_iff] at hrounds
        obtain ⟨⟨later', stats'⟩, hrest, heq⟩ := hrounds
        obtain ⟨rfl, rfl⟩ := Prod.mk.inj heq
        have hrun := h.run
        have hlifted := lifted_perm book.taken hperm
        have hsome : (lifted book.taken todo).isEmpty = false :=
          List.isEmpty_eq_false_iff.2 fun hnil => hnone (hnil ▸ hlifted).eq_nil
        obtain ⟨todo', htodo', hkeys⟩ := hrun.added.exists_keys_eq
        obtain ⟨rules', hrest', hrules⟩ :=
          ih (hrun.next htodo') (hlifted.trans htodo'.symm) hrest
        refine ⟨rules', ?_, hrules.perm ?_⟩
        · rw [nameRounds_succ rfl (hrun.added.isEmpty_eq.trans hsome), hkeys, hrest',
            hrun.added.size_eq, List.nil_append, ← hlifted.length_eq]
          rfl
        · rw [List.append_assoc]
          have hstripped := (stripped_perm book.taken hperm).symm
          exact ((hstripped.append_right later').append_left flat).map asRule

/-- At the start all rules of the rulebook are still to be visited. -/
theorem start (hnodup : book.names.Nodup) (hperm : todo.Perm book.rules) :
    Stands book ⟨addRules ∅ book.rules, ∅⟩ todo [] [] := by
  have hrules : HasRules (addRules ∅ book.rules) todo :=
    (HasRules.empty.addRules hnodup).perm hperm.symm
  have hnames : ∀ name, name ∈ todo.map Rule.name ↔ name ∈ book.names :=
    fun name => (hperm.map Rule.name).mem_iff
  refine ⟨?_, .empty, ?_, ?_, ?_⟩
  · simpa using hrules
  · simpa using hrules.nodup
  · intro name hname
    simpa using (hnames name).2 hname
  · intro name hname
    rw [List.map_nil, List.append_nil, List.append_nil, hnames] at hname
    exact Or.inl (Rulebook.taken_contains_iff.2 (Or.inl hname))

end Stands

/-- Read in the order of the map, the rules are sorted. -/
theorem HasRules.map_toList_eq (h : HasRules rules (flat.map asRule)) :
    (rules.toList.map fun (_, r) => flatRule r) = flat.mergeSort byName := by
  have hperm : (rules.toList.map fun (_, r) => flatRule r).Perm flat := by
    have hmap := h.map_toList_perm.map flatRule
    simpa [Function.comp_def] using hmap
  have hkey : ∀ entry ∈ rules.toList, (flatRule entry.2).name = entry.1 := fun entry hentry =>
    ((h.getElem?_eq_some_iff _ _).1
      (Std.TreeMap.mem_toList_iff_getElem?_eq_some.1 hentry)).2
  have hsorted : (rules.toList.map fun (_, r) => flatRule r).Pairwise
      fun a b => a.name < b.name := by
    rw [List.pairwise_map]
    refine Std.TreeMap.ordered_keys_toList.imp_of_mem fun {a b} ha hb hlt => ?_
    rw [hkey a ha, hkey b hb]
    exact compare_lt_iff_lt.1 hlt
  have hnodup : (flat.map FlatRule.name).Nodup := by
    have hnames := h.nodup
    rwa [List.map_map, Function.comp_def] at hnames
  have hsorted' : (flat.mergeSort byName).Pairwise fun a b => a.name < b.name :=
    pairwise_lt_mergeSort_key (fun _ _ => decide_eq_true_iff) hnodup
  refine List.Perm.eq_of_pairwise (fun a b _ _ hab hba => ?_) hsorted hsorted'
    (hperm.trans (List.mergeSort_perm flat byName).symm)
  exact absurd hab (lt_asymm hba)

end Rounds

end Flatten

/-! ### Main statement -/

namespace Rulebook

open Flatten

variable {book : Rulebook}

/-- The loop over the map gives the table that comes of passing over a fixed set of names. -/
theorem flattenMap?_eq (hnodup : book.names.Nodup) (cap : Nat) :
    book.flattenMap? cap = book.flatten? cap := by
  obtain ⟨flat, stats, hrounds, -⟩ := exists_rounds book cap
  obtain ⟨todo, hperm, hkeys⟩ := (HasRules.empty.addRules hnodup).exists_keys_eq
  obtain ⟨rules, hloop, hrules⟩ :=
    (Stands.start hnodup hperm).exists_nameRounds hperm.symm hrounds
  rw [flatten?_eq_of_rounds hrounds]
  show (nameRounds _ _ _ _).map _ = _
  rw [hkeys, hloop]
  exact congrArg (fun rules => some (ofRules rules stats)) hrules.map_toList_eq

end Rulebook

end Progression

import Mathlib.Data.Nat.Nth
import Mathlib.Data.Set.Finite.Basic
import Progression.Proofs.Expressions
import Progression.Proofs.Probing

/-!
The names that flattening gives, in closed form. A number is free behind a name if what they make
together is neither defined nor mentioned by any rule, and the gates in place among the parents of
a node get the free numbers behind its name in order. So the names of a rule are settled by what
is written, whatever the rounds and the other rules do. Main statement: the table, also that of
the loop over a map, is the one of the closed form, and it stays as it is when rules are added
that do not speak of such names.
-/

namespace Progression

open Flatten

namespace Rulebook

/-- The number may be given behind the name of `owner`: no rule defines or mentions what they make
together. -/
def IsFree (book : Rulebook) (owner : String) (k : Nat) : Prop :=
  0 < k ∧ numbered owner k ∉ book.names ∧ numbered owner k ∉ book.references

instance (book : Rulebook) (owner : String) : DecidablePred (book.IsFree owner) :=
  fun _ => inferInstanceAs (Decidable (_ ∧ _))

/-- The free numbers behind a name in their order, from the least. -/
noncomputable def freeNumbers (book : Rulebook) (owner : String) : Nat → Nat :=
  Nat.nth (book.IsFree owner)

/-- The parents of `owner` as names. The gates written in place are numbered in order, the next of
them being the `j`th. -/
def numberedParents (owner : String) (number : Nat → Nat) : Nat → List Parent → List String
  | _, [] => []
  | j, .named name :: ps => name :: numberedParents owner number j ps
  | j, .inline _ _ :: ps =>
    numbered owner (number j) :: numberedParents owner number (j + 1) ps

/-- The expressions under the names of the closed form. -/
inductive IsNamed (book : Rulebook) : Expression → Prop
  | rule {r : Rule} : r ∈ book.rules → IsNamed book r.expression
  | inline {e : Expression} {before after : List Parent} {kind : Kind} {parents : List Parent} :
      IsNamed book e → e.gate.parents = before ++ .inline kind parents :: after →
      IsNamed book ⟨numbered e.name (book.freeNumbers e.name (before.countP Parent.isInline)),
        ⟨kind, parents⟩, e.rule⟩

/-- The node of an expression. -/
noncomputable def nodeOf (book : Rulebook) (e : Expression) : NamedNode :=
  ⟨e.gate.kind, numberedParents e.name (book.freeNumbers e.name) 0 e.gate.parents, [],
    e.rule.source, e.name == e.rule.name && e.rule.placeable⟩

variable {book book' : Rulebook} {owner : String} {k : Nat}

/-! ### Free numbers -/

/-- There is always a free number left. -/
theorem infinite_isFree (book : Rulebook) (owner : String) :
    {k | book.IsFree owner k}.Infinite := by
  have hfinite : {k | numbered owner k ∈ book.names ++ book.references}.Finite :=
    Set.Finite.preimage (fun i _ j _ h => (numbered_inj h).2)
      (book.names ++ book.references).finite_toSet
  have hinfinite := (hfinite.union (Set.finite_singleton 0)).infinite_compl
  refine hinfinite.mono fun k hk => ?_
  simp only [Set.mem_compl_iff, Set.mem_union, Set.mem_ofPred_eq, Set.mem_singleton_iff,
    List.mem_append, not_or] at hk
  exact ⟨Nat.pos_of_ne_zero hk.2, hk.1⟩

theorem isFree_iff_not_taken (hk : 0 < k) :
    book.IsFree owner k ↔ book.taken.contains (numbered owner k) = false := by
  rw [IsFree, and_iff_right hk, ← not_or, ← taken_contains_iff, Bool.not_eq_true]

/-- The search skips no free number. -/
theorem count_nextNumber (r : Rule) (k : Nat) :
    Nat.count (book.IsFree r.name) (nextNumber r book.taken k) =
      Nat.count (book.IsFree r.name) (k + 1) := by
  obtain ⟨hle, -, hbefore⟩ := freeNumber_spec r.name book.taken (k + 1)
  refine Nat.le_antisymm (Nat.le_of_not_lt fun hlt => ?_) (Nat.count_monotone _ hle)
  obtain ⟨j, ⟨hj, hjlt⟩, hfree⟩ := Nat.exists_of_count_lt_count hlt
  rw [isFree_iff_not_taken (by omega), hbefore j hj hjlt] at hfree
  contradiction

theorem isFree_nextNumber (book : Rulebook) (r : Rule) (k : Nat) :
    book.IsFree r.name (nextNumber r book.taken k) := by
  obtain ⟨hle, hfree, -⟩ := freeNumber_spec r.name book.taken (k + 1)
  exact (isFree_iff_not_taken (Nat.lt_of_lt_of_le (Nat.succ_pos k) hle)).2 hfree

/-- If `j` free numbers have been passed, the next one is the `j`th. -/
theorem nextNumber_eq {r : Rule} {j k : Nat}
    (hj : Nat.count (book.IsFree r.name) (k + 1) = j) :
    nextNumber r book.taken k = book.freeNumbers r.name j ∧
      Nat.count (book.IsFree r.name) (nextNumber r book.taken k + 1) = j + 1 := by
  have hfree := isFree_nextNumber book r k
  have hcount := (count_nextNumber r k).trans hj
  constructor
  · rw [freeNumbers, ← hcount, Nat.nth_count hfree]
  · rw [Nat.count_succ, if_pos hfree, hcount]

@[simp] theorem count_isFree_one (book : Rulebook) (owner : String) :
    Nat.count (book.IsFree owner) 1 = 0 := by
  rw [Nat.count_one, if_neg fun hfree => Nat.lt_irrefl 0 hfree.1]

/-! ### The names of one rule -/

theorem liftParents_fst {r : Rule} {j k : Nat}
    (hj : Nat.count (book.IsFree r.name) (k + 1) = j) (ps : List Parent) :
    (liftParents r book.taken k ps).1 =
      numberedParents r.name (book.freeNumbers r.name) j ps := by
  induction ps generalizing j k with
  | nil => rfl
  | cons p ps ih =>
      cases p with
      | named name => rw [liftParents_named, numberedParents, ih hj]
      | inline kind parents =>
          obtain ⟨hnext, hcount⟩ := nextNumber_eq hj
          rw [liftParents_inline, numberedParents, ih hcount, hnext]

/-- The rule that is made of the gate with `j` gates before it. -/
noncomputable def numberedRule (book : Rulebook) (r : Rule) (j : Nat) (kind : Kind)
    (parents : List Parent) : Rule :=
  ⟨numbered r.name (book.freeNumbers r.name j), ⟨kind, parents⟩, r.source, false⟩

@[simp] theorem countP_inline_cons (kind : Kind) (parents before : List Parent) :
    (Parent.inline kind parents :: before).countP Parent.isInline =
      before.countP Parent.isInline + 1 := List.countP_cons_of_pos rfl

/-- A list splits at its head or behind it. -/
theorem exists_split_cons {p : Parent} {ps : List Parent}
    {Q : List Parent → Kind → List Parent → Prop} :
    (∃ before kind parents after, p :: ps = before ++ .inline kind parents :: after ∧
        Q before kind parents) ↔
      (∃ kind parents, p = .inline kind parents ∧ Q [] kind parents) ∨
        ∃ before kind parents after, ps = before ++ .inline kind parents :: after ∧
          Q (p :: before) kind parents := by
  constructor
  · rintro ⟨before, kind, parents, after, hps, hQ⟩
    cases before with
    | nil => exact Or.inl ⟨kind, parents, (List.cons.inj hps).1, hQ⟩
    | cons b before =>
        obtain ⟨rfl, rfl⟩ := List.cons.inj hps
        exact Or.inr ⟨before, kind, parents, after, rfl, hQ⟩
  · rintro (⟨kind, parents, rfl, hQ⟩ | ⟨before, kind, parents, after, rfl, hQ⟩)
    · exact ⟨[], kind, parents, ps, rfl, hQ⟩
    · exact ⟨p :: before, kind, parents, after, rfl, hQ⟩

theorem mem_liftParents_iff {r : Rule} {j k : Nat}
    (hj : Nat.count (book.IsFree r.name) (k + 1) = j) {ps : List Parent} {q : Rule} :
    q ∈ (liftParents r book.taken k ps).2 ↔
      ∃ before kind parents after, ps = before ++ .inline kind parents :: after ∧
        q = book.numberedRule r (j + before.countP Parent.isInline) kind parents := by
  -- `k` is where the search stands, and `j` free numbers have been passed by then
  induction ps generalizing j k with
  | nil => simp [liftParents]
  | cons p ps ih =>
      rw [exists_split_cons]
      cases p with
      | named name =>
          rw [liftParents_named, ih hj]
          simp [Parent.isInline]
      | inline kind parents =>
          obtain ⟨hnext, hcount⟩ := nextNumber_eq hj
          have hfirst : liftedRule r book.taken k kind parents =
              book.numberedRule r j kind parents := by
            rw [liftedRule, hnext, numberedRule]
          rw [liftParents_inline, List.mem_cons, ih hcount, hfirst]
          apply or_congr
          · simp
          · simp only [countP_inline_cons, Nat.add_right_comm, Nat.add_assoc]

theorem mem_lift_iff {r q : Rule} :
    q ∈ (lift book.taken r).2 ↔
      ∃ before kind parents after, r.gate.parents = before ++ .inline kind parents :: after ∧
        q = book.numberedRule r (before.countP Parent.isInline) kind parents := by
  rw [lift_snd, mem_liftParents_iff (count_isFree_one book r.name)]
  simp only [Nat.zero_add]

/-! ### The names of all rules -/

theorem IsNamed.of_lift {r q rule : Rule} (h : book.IsNamed ⟨r.name, r.gate, rule⟩)
    (hq : q ∈ (lift book.taken r).2) : book.IsNamed ⟨q.name, q.gate, rule⟩ := by
  obtain ⟨before, kind, parents, after, hparents, rfl⟩ := mem_lift_iff.1 hq
  exact .inline h hparents

/-- The pieces that a rule is taken apart into have the names of the closed form. -/
theorem IsNamed.of_pieces {rule : Rule} (r : Rule) (h : book.IsNamed ⟨r.name, r.gate, rule⟩) :
    ∀ q ∈ pieces book.taken r, book.IsNamed ⟨q.name, q.gate, rule⟩ := by
  induction r using lift_induction book.taken with
  | step r ih =>
      intro q hq
      rcases mem_pieces_iff.1 hq with rfl | ⟨p, hp, hq⟩
      · exact h
      · exact ih p hp (h.of_lift hp) q hq

theorem IsNamed.exists_piece {e : Expression} (h : book.IsNamed e) :
    e.rule ∈ book.rules ∧ ∃ q ∈ pieces book.taken e.rule, q.name = e.name ∧ q.gate = e.gate := by
  induction h with
  | @rule r hr => exact ⟨hr, r, mem_pieces_iff.2 (Or.inl rfl), rfl, rfl⟩
  | @inline e before after kind parents _ hparents ih =>
      obtain ⟨hr, q, hq, hname, hgate⟩ := ih
      rw [← hgate] at hparents
      have hlift : book.numberedRule q (before.countP Parent.isInline) kind parents ∈
          (lift book.taken q).2 :=
        mem_lift_iff.2 ⟨before, kind, parents, after, hparents, rfl⟩
      refine ⟨hr, _, List.mem_of_mem_tail (mem_pieces_of_lift e.rule q hq _ hlift), ?_, rfl⟩
      rw [numberedRule, hname]

/-- A piece becomes the node of its expression. -/
theorem toNamed_lift {r q : Rule} (hq : q ∈ pieces book.taken r) :
    (lift book.taken q).1.toNamed = book.nodeOf ⟨q.name, q.gate, r⟩ := by
  have hmem : (lift book.taken q).1 ∈ expand book.taken r := by
    rw [expand_eq_map_pieces]
    exact List.mem_map_of_mem hq
  obtain ⟨hsource, hplaceable⟩ := source_of_mem_expand hmem
  have hitem : q.placeable = (q.name == r.name && r.placeable) := by
    rw [Bool.eq_iff_iff, Bool.and_eq_true, beq_iff_eq]
    exact hplaceable
  have hparents := liftParents_fst (count_isFree_one book q.name) q.gate.parents
  have hsource' : q.source = r.source := hsource
  rw [lift_fst, FlatRule.toNamed, nodeOf, hparents, hsource', hitem]

/-- The table has the nodes of the closed form and no others. -/
theorem Tabulates.named?_eq_some_nodeOf_iff {table : FlatTable} (h : book.Tabulates table)
    (name : String) (node : NamedNode) :
    table.named? name = some node ↔ ∃ e, book.IsNamed e ∧ e.name = name ∧ book.nodeOf e = node := by
  rw [h.named?_eq_some_iff]
  constructor
  · rintro ⟨f, hf, rfl, rfl⟩
    obtain ⟨r, hr, hf⟩ := mem_expansion_iff.1 hf
    rw [expand_eq_map_pieces] at hf
    obtain ⟨q, hq, rfl⟩ := List.mem_map.1 hf
    exact ⟨⟨q.name, q.gate, r⟩, .of_pieces r (.rule hr) q hq, rfl, (toNamed_lift hq).symm⟩
  · rintro ⟨e, he, rfl, rfl⟩
    obtain ⟨hr, q, hq, hname, hgate⟩ := he.exists_piece
    refine ⟨(lift book.taken q).1, ?_, hname, ?_⟩
    · rw [mem_expansion_iff]
      refine ⟨e.rule, hr, ?_⟩
      rw [expand_eq_map_pieces]
      exact List.mem_map_of_mem hq
    · rw [toNamed_lift hq, hname, hgate]

/-! ### More rules -/

section Extension

variable {table : FlatTable}

theorem Tabulates.named?_of_isNamed (h : book.Tabulates table) {e : Expression}
    (he : book.IsNamed e) : table.named? e.name = some (book.nodeOf e) :=
  (h.named?_eq_some_nodeOf_iff _ _).2 ⟨e, he, rfl, rfl⟩

theorem Tabulates.name_mem_of_isNamed (h : book.Tabulates table) {e : Expression}
    (he : book.IsNamed e) : e.name ∈ table.names := by
  rw [h.wellFormed.mem_names_iff, h.named?_of_isNamed he]
  exact Option.some_ne_none _

theorem Tabulates.exists_isNamed (h : book.Tabulates table) {name : String}
    (hname : name ∈ table.names) : ∃ e, book.IsNamed e ∧ e.name = name := by
  rw [h.wellFormed.mem_names_iff, Option.ne_none_iff_exists'] at hname
  obtain ⟨node, hnode⟩ := hname
  obtain ⟨e, he, hname, -⟩ := (h.named?_eq_some_nodeOf_iff _ _).1 hnode
  exact ⟨e, he, hname⟩

theorem numbered_mem_numberedParents (owner : String) (number : Nat → Nat) (j : Nat)
    (before after : List Parent) (kind : Kind) (parents : List Parent) :
    numbered owner (number (j + before.countP Parent.isInline)) ∈
      numberedParents owner number j (before ++ .inline kind parents :: after) := by
  induction before generalizing j with
  | nil => simp [numberedParents]
  | cons p before ih =>
      cases p with
      | named name =>
          rw [List.countP_cons_of_neg (by simp [Parent.isInline])]
          exact List.mem_cons_of_mem _ (ih j)
      | inline kind' parents' =>
          have hrest := ih (j + 1)
          rw [Nat.add_right_comm, Nat.add_assoc] at hrest
          rw [countP_inline_cons]
          exact List.mem_cons_of_mem _ hrest

/-- A name with a number that no rule has is given by the owner alone. -/
theorem Tabulates.exists_owner (h : book.Tabulates table)
    (hname : numbered owner k ∈ table.names) (hnew : numbered owner k ∉ book.names) :
    ∃ node, table.named? owner = some node ∧ numbered owner k ∈ node.parents := by
  obtain ⟨e, he, heq⟩ := h.exists_isNamed hname
  cases he with
  | rule hr => exact absurd (List.mem_map_of_mem hr) (heq ▸ hnew)
  | @inline e before after kind parents he hparents =>
      -- names with numbers tell the owner and the number apart
      obtain ⟨rfl, rfl⟩ := numbered_inj heq
      refine ⟨_, h.named?_of_isNamed he, ?_⟩
      have hmem := numbered_mem_numberedParents e.name (book.freeNumbers e.name) 0 before after
        kind parents
      rw [Nat.zero_add, ← hparents] at hmem
      exact hmem

/-- The other rulebook has more rules. None of those that are new defines or mentions a name that
could be given to a gate of the table. -/
structure ExtendedBy (book : Rulebook) (table : FlatTable) (book' : Rulebook) : Prop where
  subset : book.rules ⊆ book'.rules
  apart : ∀ r ∈ book'.rules, r ∉ book.rules → ∀ owner ∈ table.names, ∀ k, 0 < k →
    r.name ≠ numbered owner k ∧ numbered owner k ∉ r.gate.references

/-- What is true of no new rule is true of as many rules as before. -/
theorem ExtendedBy.exists_rule_iff {P : Rule → Prop} (h : book.ExtendedBy table book')
    (hnew : ∀ r ∈ book'.rules, r ∉ book.rules → ¬ P r) :
    (∃ r ∈ book'.rules, P r) ↔ ∃ r ∈ book.rules, P r := by
  constructor
  · rintro ⟨r, hr, hP⟩
    by_cases hold : r ∈ book.rules
    · exact ⟨r, hold, hP⟩
    · exact absurd hP (hnew r hr hold)
  · rintro ⟨r, hr, hP⟩
    exact ⟨r, h.subset hr, hP⟩

/-- Numbers stay free behind the names of the table. -/
theorem ExtendedBy.freeNumbers_eq (h : book.ExtendedBy table book') (howner : owner ∈ table.names) :
    book'.freeNumbers owner = book.freeNumbers owner := by
  have hfree : book'.IsFree owner = book.IsFree owner := by
    funext k
    apply propext
    refine and_congr_right fun hk => and_congr (not_congr ?_) (not_congr ?_)
    · rw [names, names, List.mem_map, List.mem_map]
      exact h.exists_rule_iff fun r hr hold => (h.apart r hr hold owner howner k hk).1
    · rw [references, references, List.mem_flatMap, List.mem_flatMap]
      exact h.exists_rule_iff fun r hr hold => (h.apart r hr hold owner howner k hk).2
  rw [freeNumbers, hfree, freeNumbers]

theorem ExtendedBy.isNamed (h : book.ExtendedBy table book') (htable : book.Tabulates table)
    {e : Expression} (he : book.IsNamed e) : book'.IsNamed e := by
  induction he with
  | rule hr => exact .rule (h.subset hr)
  | @inline e before after kind parents he hparents ih =>
      rw [← h.freeNumbers_eq (htable.name_mem_of_isNamed he)]
      exact .inline ih hparents

/-- Nodes of the table stay as they are. -/
theorem ExtendedBy.named?_eq {table' : FlatTable} (h : book.ExtendedBy table book')
    (htable : book.Tabulates table) (htable' : book'.Tabulates table') :
    ∀ name ∈ table.names, table'.named? name = table.named? name := by
  intro name hname
  obtain ⟨e, he, rfl⟩ := htable.exists_isNamed hname
  rw [htable.named?_of_isNamed he, htable'.named?_of_isNamed (h.isNamed htable he), nodeOf, nodeOf,
    h.freeNumbers_eq hname]

end Extension

/-! ### Main statement -/

/-- Given names have a closed form, in which only the rules as they are written occur. They are
the names of the loop, which looks at the rules as they are when it gives them. -/
theorem exists_flatten?_numbered {tables : List Table} (hmerge : ofTables tables = .ok book)
    (cap : Nat) :
    ∃ table, book.flatten? cap = some table ∧ book.flattenMap? cap = some table ∧
      (∀ name node, table.named? name = some node ↔
        ∃ e, book.IsNamed e ∧ e.name = name ∧ book.nodeOf e = node) ∧
      (∀ owner, {k | book.IsFree owner k}.Infinite) ∧
      (∀ owner k, numbered owner k ∈ table.names → numbered owner k ∉ book.names →
        ∃ node, table.named? owner = some node ∧ numbered owner k ∈ node.parents) ∧
      ∀ tables' book' cap', ofTables tables' = .ok book' → book.ExtendedBy table book' →
        ∃ table', book'.flatten? cap' = some table' ∧ book'.flattenMap? cap' = some table' ∧
          ∀ name ∈ table.names, table'.named? name = table.named? name := by
  have hnodup := names_nodup hmerge
  obtain ⟨table, hflatten, h⟩ := exists_tabulates hnodup cap
  refine ⟨table, hflatten, (flattenMap?_eq hnodup cap).trans hflatten,
    h.named?_eq_some_nodeOf_iff, infinite_isFree book, fun owner k => h.exists_owner, ?_⟩
  intro tables' book' cap' hmerge' hextended
  have hnodup' := names_nodup hmerge'
  obtain ⟨table', hflatten', h'⟩ := exists_tabulates hnodup' cap'
  exact ⟨table', hflatten', (flattenMap?_eq hnodup' cap').trans hflatten',
    hextended.named?_eq h h'⟩

/-- The first number behind `vault` is taken by the name that the rule mentions. -/
theorem freeNumbers_vault : vaultBook.freeNumbers "vault" 0 = 2 := by
  have hcount : Nat.count (vaultBook.IsFree "vault") 2 = 0 := by decide
  rw [freeNumbers, ← hcount, Nat.nth_count (by decide)]

/-- A rule more, which has a gate in place too. -/
def lampRule : Rule :=
  ⟨"lamp", ⟨.or, [.named "vault", .inline .root []]⟩, "more", false⟩

def lampTables : List Table :=
  vaultTables ++ [⟨"more", false, [("lamp", lampRule.gate)]⟩]

def lampBook : Rulebook :=
  ⟨vaultBook.rules.insertIdx 1 lampRule⟩

/-- The lamp's rule speaks of no name with a number. -/
theorem extendedBy_lampBook (table : FlatTable) : vaultBook.ExtendedBy table lampBook where
  subset := by decide
  apart := by
    have hnew : ∀ r ∈ lampBook.rules, r ∉ vaultBook.rules → r = lampRule := by decide
    have hblank : ∀ owner k, ' ' ∈ (numbered owner k).toList := by simp
    intro r hr hold owner _ k _
    obtain rfl := hnew r hr hold
    constructor
    · intro heq
      exact absurd (heq ▸ hblank owner k) (by decide)
    · intro hmention
      have hvault : numbered owner k = "vault" := List.mem_singleton.1 hmention
      exact absurd (hvault ▸ hblank owner k) (by decide)

theorem exists_flatten?_numbered_lamp :
    ofTables vaultTables = .ok vaultBook ∧ ofTables lampTables = .ok lampBook ∧
      ∃ table table', vaultBook.flatten? 64 = some table ∧
        vaultBook.flattenMap? 64 = some table ∧ lampBook.flatten? 0 = some table' ∧
        lampBook.flattenMap? 0 = some table' ∧
        table.named? "vault" = some ⟨.and, ["vault 1", "vault 2"], [], "world", false⟩ ∧
        table'.named? "vault" = table.named? "vault" := by
  have hmerge : ofTables vaultTables = .ok vaultBook := by cbv
  have hmerge' : ofTables lampTables = .ok lampBook := by cbv
  obtain ⟨table, hflatten, hmap, hclosed, -, -, hextend⟩ := exists_flatten?_numbered hmerge 64
  obtain ⟨table', hflatten', hmap', hsame⟩ :=
    hextend lampTables lampBook 0 hmerge' (extendedBy_lampBook table)
  have hvault : table.named? "vault" =
      some ⟨.and, ["vault 1", "vault 2"], [], "world", false⟩ := by
    rw [hclosed]
    refine ⟨_, .rule (List.mem_cons_of_mem _ List.mem_cons_self), rfl, ?_⟩
    simp only [nodeOf, Rule.expression, numberedParents, freeNumbers_vault]
    rfl
  have hmem : "vault" ∈ table.names := by
    obtain ⟨_, hflatten'', h⟩ := exists_tabulates (names_nodup hmerge) 64
    obtain rfl := Option.some.inj (hflatten''.symm.trans hflatten)
    rw [h.wellFormed.mem_names_iff, hvault]
    exact Option.some_ne_none _
  exact ⟨hmerge, hmerge', table, table', hflatten, hmap, hflatten', hmap', hvault,
    hsame "vault" hmem⟩

end Rulebook

end Progression

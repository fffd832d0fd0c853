import Progression.Proofs.Flattening

/-!
Expressions: the rules that authors write, and all gates in place inside them. Flattening takes
a rule apart into pieces, one for each of its expressions, and every piece becomes a node that
has the kind of its expression and a name for each of its parents.
-/

namespace Progression

open Flatten

namespace Parent

mutual

/-- The gates written in place, at any depth, in reading order. -/
def gates : Parent → List Gate
  | .named _ => []
  | .inline kind parents => ⟨kind, parents⟩ :: gatesAll parents

def gatesAll : List Parent → List Gate
  | [] => []
  | p :: ps => p.gates ++ gatesAll ps

end

theorem gatesAll_eq (ps : List Parent) :
    gatesAll ps = (ps.filter isInline).flatMap gates := by
  induction ps with
  | nil => rfl
  | cons p ps ih =>
      rw [gatesAll, ih]
      cases p with
      | named name => rfl
      | inline kind parents => rfl

mutual

theorem mem_references_iff (name : String) : (p : Parent) →
    (name ∈ p.references ↔ p = .named name ∨ ∃ gate ∈ p.gates, .named name ∈ gate.parents)
  | .named other => by simp [references, gates, eq_comm]
  | .inline kind parents => by
      rw [references, gates, mem_referencesAll_iff name parents]
      simp

/-- What is mentioned at any depth is a parent of some gate. -/
theorem mem_referencesAll_iff (name : String) : (ps : List Parent) →
    (name ∈ referencesAll ps ↔
      .named name ∈ ps ∨ ∃ gate ∈ gatesAll ps, .named name ∈ gate.parents)
  | [] => by simp [referencesAll, gatesAll]
  | p :: ps => by
      rw [referencesAll, gatesAll, List.mem_append, mem_references_iff name p,
        mem_referencesAll_iff name ps]
      simp only [List.mem_cons, List.mem_append, or_and_right, exists_or, @eq_comm _ p]
      exact or_or_or_comm

end

end Parent

namespace Gate

/-- The gates written in place inside the gate. -/
def inner (gate : Gate) : List Gate :=
  Parent.gatesAll gate.parents

@[simp] theorem gates_inline (gate : Gate) : gate.inline.gates = gate :: gate.inner := by
  rw [inline, Parent.gates, inner]

/-- A name is a parent of the gate or of a gate inside it. -/
def Mentions (gate : Gate) (name : String) : Prop :=
  ∃ g ∈ gate :: gate.inner, .named name ∈ g.parents

instance (gate : Gate) (name : String) : Decidable (gate.Mentions name) :=
  inferInstanceAs (Decidable (∃ g ∈ gate :: gate.inner, .named name ∈ g.parents))

theorem mem_references_iff {gate : Gate} {name : String} :
    name ∈ gate.references ↔ gate.Mentions name := by
  rw [references, Parent.mem_referencesAll_iff, Mentions, List.exists_mem_cons_iff, inner]

end Gate

/-! ### Pieces of a rule -/

namespace Flatten

variable {taken : Std.TreeSet String}

/-- The rules that a rule is taken apart into. -/
def pieces (taken : Std.TreeSet String) (r : Rule) : List Rule :=
  r :: (lift taken r).2.attach.flatMap fun q => pieces taken q.1
termination_by r.gate.depth
decreasing_by exact depth_lt_of_mem_lift q.2

theorem pieces_eq (taken : Std.TreeSet String) (r : Rule) :
    pieces taken r = r :: (lift taken r).2.flatMap (pieces taken) := by
  rw [pieces]
  rw [List.flatMap_def, List.flatMap_def, List.attach_map_val]

theorem mem_pieces_iff {r q : Rule} :
    q ∈ pieces taken r ↔ q = r ∨ ∃ p ∈ (lift taken r).2, q ∈ pieces taken p := by
  rw [pieces_eq, List.mem_cons, List.mem_flatMap]

theorem expand_eq_map_pieces (r : Rule) :
    expand taken r = (pieces taken r).map fun q => (lift taken q).1 := by
  induction r using lift_induction taken with
  | step r ih =>
      rw [expand_eq, pieces_eq, List.map_cons, List.map_flatMap]
      exact congrArg _ (List.flatMap_congr ih)

/-- The pieces are the expressions of the rule. -/
@[simp] theorem map_gate_pieces (r : Rule) :
    (pieces taken r).map Rule.gate = r.gate :: r.gate.inner := by
  induction r using lift_induction taken with
  | step r ih =>
      have hinner : r.gate.inner =
          (lift taken r).2.flatMap fun q => q.gate :: q.gate.inner := by
        rw [Gate.inner, Parent.gatesAll_eq, ← map_inline_liftParents r taken 0, ← lift_snd,
          List.flatMap_map]
        exact List.flatMap_congr fun q _ => q.gate.gates_inline
      rw [pieces_eq, List.map_cons, List.map_flatMap, hinner]
      exact congrArg _ (List.flatMap_congr ih)

theorem source_of_mem_pieces (r : Rule) : ∀ q ∈ pieces taken r, q.source = r.source := by
  induction r using lift_induction taken with
  | step r ih =>
      intro q hq
      rcases mem_pieces_iff.1 hq with rfl | ⟨p, hp, hq⟩
      · rfl
      · exact (ih p hp q hq).trans (mem_liftParents r taken 0 r.gate.parents p hp).2.1

theorem mem_pieces_of_lift (r : Rule) :
    ∀ p ∈ pieces taken r, ∀ q ∈ (lift taken p).2, q ∈ (pieces taken r).tail := by
  induction r using lift_induction taken with
  | step r ih =>
      intro p hp q hq
      rw [pieces_eq, List.tail_cons, List.mem_flatMap]
      rcases mem_pieces_iff.1 hp with rfl | ⟨p', hp', hp⟩
      · exact ⟨q, hq, mem_pieces_iff.2 (Or.inl rfl)⟩
      · exact ⟨p', hp', List.mem_of_mem_tail (ih p' hp' p hp q hq)⟩

end Flatten

/-! ### Expressions -/

/-- The gate of a rule, or a gate that is written in place inside it. -/
structure Expression where
  /-- The name of the rule, or the one that flattening gave. -/
  name : String
  gate : Gate
  rule : Rule

def Rule.expression (r : Rule) : Expression :=
  ⟨r.name, r.gate, r⟩

/-- The expressions of rules, where `given` are the ones that were given a name. -/
def expressions (rules : List Rule) (given : List Expression) : List Expression :=
  rules.map Rule.expression ++ given

theorem mem_expressions {rules : List Rule} {given : List Expression} {e : Expression} :
    e ∈ expressions rules given ↔ (∃ r ∈ rules, r.expression = e) ∨ e ∈ given := by
  simp [expressions]

theorem Rule.expression_mem {rules : List Rule} {given : List Expression} {r : Rule}
    (hr : r ∈ rules) : r.expression ∈ expressions rules given :=
  mem_expressions.2 (Or.inl ⟨r, hr, rfl⟩)

/-- What a name among a node's parents stands for, if the node comes from an expression of
the rule. -/
inductive Expression.StandsFor (given : List Expression) (rule : Rule) : String → Parent → Prop
  | named (name : String) : StandsFor given rule name (.named name)
  | inline {e : Expression} : e ∈ given → e.rule = rule →
      StandsFor given rule e.name e.gate.inline

/-- The nodes of a table are the expressions of some rules. -/
structure FlatTable.Expresses (table : FlatTable) (rules : List Rule) (given : List Expression) :
    Prop where
  /-- Every gate that is written in place has been given one name. -/
  given_perm : (given.map fun e => (e.gate, e.rule)).Perm
    (rules.flatMap fun r => r.gate.inner.map (·, r))
  names_perm : table.names.Perm ((expressions rules given).map Expression.name)
  nodup : ((expressions rules given).map Expression.name).Nodup
  not_mentions : ∀ e ∈ given, ∀ r ∈ rules, ¬ r.gate.Mentions e.name
  mentioned_once : ∀ e ∈ given, table.mentions.count e.name = 1
  exists_node : ∀ e ∈ expressions rules given, ∃ node, table.named? e.name = some node ∧
    node.kind = e.gate.kind ∧ node.source = e.rule.source ∧
    List.Forall₂ (Expression.StandsFor given e.rule) node.parents e.gate.parents

namespace Rulebook

variable {book : Rulebook} {table : FlatTable}

/-- The gates that flattening gives names to. -/
def given (book : Rulebook) : List Expression :=
  book.rules.flatMap fun r => (pieces book.taken r).tail.map fun q => ⟨q.name, q.gate, r⟩

@[simp] theorem map_name_given (book : Rulebook) : book.given.map Expression.name = book.made := by
  rw [given, made, List.map_flatMap]
  refine List.flatMap_congr fun r _ => ?_
  rw [expand_eq_map_pieces, List.map_map, ← List.map_tail, List.map_map]
  rfl

theorem map_gate_given (book : Rulebook) :
    (book.given.map fun e => (e.gate, e.rule)) =
      book.rules.flatMap fun r => r.gate.inner.map (·, r) := by
  rw [given, List.map_flatMap]
  refine List.flatMap_congr fun r _ => ?_
  have hinner : r.gate.inner = (pieces book.taken r).tail.map Rule.gate := by
    rw [List.map_tail, map_gate_pieces, List.tail_cons]
  rw [hinner, List.map_map, List.map_map]
  rfl

/-- Every expression is a piece of its rule. -/
theorem mem_expressions_iff {e : Expression} :
    e ∈ expressions book.rules book.given ↔
      ∃ r ∈ book.rules, ∃ q ∈ pieces book.taken r, e = ⟨q.name, q.gate, r⟩ := by
  rw [mem_expressions, given, List.mem_flatMap, ← exists_or]
  refine exists_congr fun r => ?_
  rw [← and_or_left, pieces_eq, List.exists_mem_cons_iff, List.tail_cons, List.mem_map]
  simp only [Rule.expression, @eq_comm _ e]

/-- A piece becomes a node of its kind, with a name for each of its parents. -/
theorem Tabulates.exists_node_of_piece (h : book.Tabulates table) {r q : Rule}
    (hr : r ∈ book.rules) (hq : q ∈ pieces book.taken r) :
    ∃ node, table.named? q.name = some node ∧ node.kind = q.gate.kind ∧ node.source = r.source ∧
      List.Forall₂ (Expression.StandsFor book.given r) node.parents q.gate.parents := by
  have hmem : (lift book.taken q).1 ∈ book.expansion := by
    refine mem_expansion_iff.2 ⟨r, hr, ?_⟩
    rw [expand_eq_map_pieces]
    exact List.mem_map_of_mem hq
  refine ⟨_, h.named?_of_mem hmem, rfl, source_of_mem_pieces r q hq, ?_⟩
  refine forall₂_liftParents q book.taken 0 q.gate.parents (fun name _ => .named name)
    fun p hp => ?_
  have hgiven : (⟨p.name, p.gate, r⟩ : Expression) ∈ book.given :=
    List.mem_flatMap.2 ⟨r, hr, List.mem_map.2 ⟨p, mem_pieces_of_lift r q hq p hp, rfl⟩⟩
  exact .inline hgiven rfl

/-- Flattening makes a node of every expression. The rules may be in any order. -/
theorem Tabulates.expresses (h : book.Tabulates table) (hnodup : book.names.Nodup)
    {rules : List Rule} (hperm : book.rules.Perm rules) : table.Expresses rules book.given := by
  have hnames : ((expressions rules book.given).map Expression.name).Perm
      (book.names ++ book.made) := by
    rw [expressions, List.map_append, map_name_given, List.map_map]
    exact (hperm.symm.map _).append_right _
  have hmade : ∀ e ∈ book.given, e.name ∈ book.made :=
    fun e he => map_name_given book ▸ List.mem_map_of_mem he
  constructor
  case given_perm =>
    rw [map_gate_given]
    exact hperm.flatMap_right _
  case names_perm => exact (h.names_perm hnodup).trans hnames.symm
  case nodup => exact hnames.nodup_iff.2 (nodup_names_append_made hnodup)
  case not_mentions =>
    intro e he r hr hmention
    have hold := references_subset (hperm.mem_iff.2 hr) (Gate.mem_references_iff.2 hmention)
    exact (fresh_of_mem_made (hmade e he)).2 hold
  case mentioned_once => exact fun e he => h.count_mentions hnodup (hmade e he)
  case exists_node =>
    intro e he
    have he' : e ∈ expressions book.rules book.given := by
      rw [mem_expressions] at he ⊢
      exact he.imp_left fun ⟨r, hr, hname⟩ => ⟨r, hperm.mem_iff.2 hr, hname⟩
    obtain ⟨r, hr, q, hq, rfl⟩ := mem_expressions_iff.1 he'
    exact h.exists_node_of_piece hr hq

end Rulebook

/-! ### From nodes to expressions and back -/

theorem exists_mem_of_forall₂ {α β : Type} {R : α → β → Prop} {as : List α} {bs : List β}
    (h : List.Forall₂ R as bs) {a : α} (ha : a ∈ as) : ∃ b ∈ bs, R a b := by
  induction h with
  | nil => contradiction
  | cons hfirst _ ih =>
      rcases List.mem_cons.1 ha with rfl | ha
      · exact ⟨_, List.mem_cons_self, hfirst⟩
      · obtain ⟨b, hb, hab⟩ := ih ha
        exact ⟨b, List.mem_cons_of_mem _ hb, hab⟩

namespace FlatTable.Expresses

variable {table : FlatTable} {rules : List Rule} {given : List Expression}

theorem mem_of_given (h : table.Expresses rules given) {e : Expression} (he : e ∈ given) :
    e.rule ∈ rules ∧ e.gate ∈ e.rule.gate.inner := by
  have hmem := h.given_perm.mem_iff.1 (List.mem_map_of_mem he)
  obtain ⟨r, hr, hpair⟩ := List.mem_flatMap.1 hmem
  obtain ⟨gate, hgate, heq⟩ := List.mem_map.1 hpair
  obtain ⟨rfl, rfl⟩ := Prod.mk.inj heq
  exact ⟨hr, hgate⟩

/-- An expression is written in its rule. -/
theorem mem_of_expression (h : table.Expresses rules given) {e : Expression}
    (he : e ∈ expressions rules given) :
    e.rule ∈ rules ∧ e.gate ∈ e.rule.gate :: e.rule.gate.inner := by
  rcases mem_expressions.1 he with ⟨r, hr, rfl⟩ | hgiven
  · exact ⟨hr, List.mem_cons_self⟩
  · obtain ⟨hr, hgate⟩ := h.mem_of_given hgiven
    exact ⟨hr, List.mem_cons_of_mem _ hgate⟩

theorem exists_given (h : table.Expresses rules given) {r : Rule} (hr : r ∈ rules) {gate : Gate}
    (hgate : gate ∈ r.gate.inner) : ∃ e ∈ given, e.gate = gate ∧ e.rule = r := by
  have hmem : (gate, r) ∈ given.map fun e => (e.gate, e.rule) :=
    h.given_perm.mem_iff.2 (List.mem_flatMap.2 ⟨r, hr, List.mem_map_of_mem hgate⟩)
  obtain ⟨e, he, heq⟩ := List.mem_map.1 hmem
  exact ⟨e, he, Prod.mk.inj heq⟩

/-- Whatever is written in a rule is an expression. -/
theorem exists_expression (h : table.Expresses rules given) {r : Rule} (hr : r ∈ rules)
    {gate : Gate} (hgate : gate ∈ r.gate :: r.gate.inner) :
    ∃ e ∈ expressions rules given, e.gate = gate ∧ e.rule = r := by
  rcases List.mem_cons.1 hgate with rfl | hinner
  · exact ⟨r.expression, Rule.expression_mem hr, rfl, rfl⟩
  · obtain ⟨e, he, hspec⟩ := h.exists_given hr hinner
    exact ⟨e, mem_expressions.2 (Or.inr he), hspec⟩

/-- Every node comes from an expression. -/
theorem exists_expression_of_named? (h : table.Expresses rules given) (hwell : table.WellFormed)
    {name : String} {node : NamedNode} (hnode : table.named? name = some node) :
    ∃ e ∈ expressions rules given, e.name = name ∧ node.kind = e.gate.kind ∧
      node.source = e.rule.source ∧
      List.Forall₂ (Expression.StandsFor given e.rule) node.parents e.gate.parents := by
  have hname : name ∈ table.names := by
    rw [hwell.mem_names_iff, hnode]
    exact Option.some_ne_none node
  obtain ⟨e, he, rfl⟩ := List.mem_map.1 (h.names_perm.mem_iff.1 hname)
  obtain ⟨node', hnode', hspec⟩ := h.exists_node e he
  obtain rfl := Option.some.inj (hnode.symm.trans hnode')
  exact ⟨e, he, rfl, hspec⟩

theorem name_ne_of_given (h : table.Expresses rules given) {r : Rule} (hr : r ∈ rules)
    {e : Expression} (he : e ∈ given) : r.name ≠ e.name := by
  have hnodup := h.nodup
  rw [expressions, List.map_append, List.nodup_append] at hnodup
  have hrule : r.name ∈ (rules.map Rule.expression).map Expression.name :=
    List.mem_map_of_mem (List.mem_map_of_mem hr)
  exact hnodup.2.2 _ hrule _ (List.mem_map_of_mem he)

/-- A node has a name among its parents if its expression has, unless the name was given to a
gate. -/
theorem isParent_of_named (h : table.Expresses rules given) {e : Expression}
    (he : e ∈ expressions rules given) {name : String} (hname : .named name ∈ e.gate.parents) :
    table.IsParent name e.name := by
  obtain ⟨node, hnode, -, -, hparents⟩ := h.exists_node e he
  obtain ⟨written, hwritten, hstands⟩ := exists_mem_of_forall₂ hparents.flip hname
  cases hstands
  exact ⟨node, hnode, hwritten⟩

theorem named_or_given_of_isParent (h : table.Expresses rules given) {e : Expression}
    (he : e ∈ expressions rules given) {name : String} (hparent : table.IsParent name e.name) :
    .named name ∈ e.gate.parents ∨
      ∃ e' ∈ given, e'.name = name ∧ e'.gate.inline ∈ e.gate.parents := by
  obtain ⟨node, hnode, hmem⟩ := hparent
  obtain ⟨node', hnode', -, -, hparents⟩ := h.exists_node e he
  obtain rfl := Option.some.inj (hnode.symm.trans hnode')
  obtain ⟨p, hp, hstands⟩ := exists_mem_of_forall₂ hparents hmem
  cases hstands with
  | named name => exact Or.inl hp
  | @inline e' he' _ => exact Or.inr ⟨e', he', rfl, hp⟩

/-- Flattening adds no mention of a name that was there before, and takes none away. -/
theorem mem_mentions_iff (h : table.Expresses rules given) (hwell : table.WellFormed)
    {name : String} :
    name ∈ table.mentions ↔ (∃ r ∈ rules, r.gate.Mentions name) ∨ ∃ e ∈ given, e.name = name := by
  constructor
  · intro hmention
    obtain ⟨other, node, hnode, hmem⟩ := hwell.mem_mentions_iff.1 hmention
    obtain ⟨e, he, rfl, -⟩ := h.exists_expression_of_named? hwell hnode
    obtain ⟨hrule, hgate⟩ := h.mem_of_expression he
    rcases h.named_or_given_of_isParent he ⟨node, hnode, hmem⟩ with hname | ⟨e', he', hname, -⟩
    · exact Or.inl ⟨e.rule, hrule, e.gate, hgate, hname⟩
    · exact Or.inr ⟨e', he', hname⟩
  · rintro (⟨r, hr, gate, hgate, hname⟩ | ⟨e, he, rfl⟩)
    · obtain ⟨e, he, rfl, rfl⟩ := h.exists_expression hr hgate
      exact hwell.mem_mentions_iff.2 ⟨e.name, h.isParent_of_named he hname⟩
    · refine List.count_pos_iff.1 ?_
      rw [h.mentioned_once e he]
      exact Nat.one_pos

end FlatTable.Expresses

end Progression

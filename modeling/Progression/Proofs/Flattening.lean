import Mathlib.Data.List.Permutation
import Progression.Proofs.Lifting
import Progression.Proofs.Merging
import Progression.Proofs.Tabulation

/-!
Flattening a whole rulebook. The table has the rulebook's names and, besides, one name for
each gate written in place. Main statement: nothing is lost, doubled or caught by another
name. Given names are new, each is mentioned once, and putting the gates that they stand for
back in their places gives every rule as it was written.
-/

namespace Progression

open Flatten

/-! ### Reading a flat table back -/

namespace FlatTable

variable {table : FlatTable}

def names (table : FlatTable) : List String :=
  table.entries.map Prod.fst

/-- Every mention of a name among the parents of some node. -/
def mentions (table : FlatTable) : List String :=
  table.entries.flatMap fun entry => entry.2.parents

/-- The node of `other` has the name among its parents. -/
def IsParent (table : FlatTable) (name other : String) : Prop :=
  ∃ node, table.named? other = some node ∧ name ∈ node.parents

theorem WellFormed.mem_names_iff (h : table.WellFormed) {name : String} :
    name ∈ table.names ↔ table.named? name ≠ none := by
  rw [names, List.mem_map, Option.ne_none_iff_exists']
  constructor
  · rintro ⟨⟨_, node⟩, hmem, rfl⟩
    exact ⟨node, h.mem_entries_iff.1 hmem⟩
  · rintro ⟨node, hnode⟩
    exact ⟨(name, node), h.mem_entries_iff.2 hnode, rfl⟩

theorem WellFormed.mem_mentions_iff (h : table.WellFormed) {name : String} :
    name ∈ table.mentions ↔ ∃ other, table.IsParent name other := by
  rw [mentions, List.mem_flatMap]
  constructor
  · rintro ⟨⟨other, node⟩, hmem, hname⟩
    exact ⟨other, node, h.mem_entries_iff.1 hmem, hname⟩
  · rintro ⟨other, node, hnode, hname⟩
    exact ⟨(other, node), h.mem_entries_iff.2 hnode, hname⟩

/-- What a parent stands for, if the names in `made` were given to gates. Gates are put back
into gates, down to some depth. -/
def standsFor (table : FlatTable) (made : List String) : Nat → String → Parent
  | 0, name => .named name
  | depth + 1, name =>
    if name ∈ made then
      match table.named? name with
      | some node => .inline node.kind (node.parents.map (standsFor table made depth))
      | none => .named name
    else .named name

/-- The gate of a name, with the gates that its parents stand for in their places. -/
def gateOf? (table : FlatTable) (made : List String) (depth : Nat) (name : String) :
    Option Gate :=
  (table.named? name).map fun node =>
    ⟨node.kind, node.parents.map (table.standsFor made depth)⟩

/-- The name of a gate written in place belongs to the rule around it, and so on outwards;
any other name belongs to itself. -/
inductive BelongsTo (table : FlatTable) (made : List String) : String → String → Prop
  | self {name : String} : name ∉ made → BelongsTo table made name name
  | inside {name owner root : String} {node : NamedNode} : BelongsTo table made owner root →
      table.named? owner = some node → name ∈ node.parents → name ∈ made →
      BelongsTo table made name root

end FlatTable

namespace Rulebook

variable {book : Rulebook} {table : FlatTable}

/-- The names that flattening gives to nothing. -/
def taken (book : Rulebook) : Std.TreeSet String :=
  .ofList (book.names ++ book.references)

/-- All flat rules, rule by rule. -/
def expansion (book : Rulebook) : List FlatRule :=
  book.rules.flatMap (expand book.taken)

/-- The names that flattening gives. -/
def made (book : Rulebook) : List String :=
  book.rules.flatMap fun r => (expand book.taken r).tail.map FlatRule.name

/-- How many gates are written in place in all rules, at any depth. -/
def inlineCount (book : Rulebook) : Nat :=
  Parent.inlineCountAll (book.rules.flatMap (·.gate.parents))

theorem taken_contains_iff {name : String} :
    book.taken.contains name = true ↔ name ∈ book.names ∨ name ∈ book.references := by
  rw [taken, Std.TreeSet.contains_ofList, List.contains_iff_mem, List.mem_append]

theorem taken_of_mem_rules {r : Rule} (hr : r ∈ book.rules) :
    book.taken.contains r.name = true :=
  taken_contains_iff.2 (Or.inl (List.mem_map_of_mem hr))

theorem references_subset {r : Rule} (hr : r ∈ book.rules) :
    r.gate.references ⊆ book.references :=
  fun _ hname => List.mem_flatMap.2 ⟨r, hr, hname⟩

/-! ### Names of the expansion -/

/-- No given name was there before. -/
theorem fresh_of_mem_made {name : String} (h : name ∈ book.made) :
    name ∉ book.names ∧ name ∉ book.references := by
  obtain ⟨r, -, hmem⟩ := List.mem_flatMap.1 h
  obtain ⟨f, hf, rfl⟩ := List.mem_map.1 hmem
  have hfree := free_of_mem_tail hf
  rw [← not_or, ← taken_contains_iff, hfree]
  exact Bool.false_ne_true

theorem mem_expansion_iff {f : FlatRule} :
    f ∈ book.expansion ↔ ∃ r ∈ book.rules, f ∈ expand book.taken r :=
  List.mem_flatMap

theorem names_expansion_perm (book : Rulebook) :
    (book.expansion.map FlatRule.name).Perm (book.names ++ book.made) := by
  have hexpand : book.expansion.map FlatRule.name =
      book.rules.flatMap fun r => [r.name] ++ (expand book.taken r).tail.map FlatRule.name := by
    rw [expansion, List.map_flatMap]
    exact List.flatMap_congr fun r _ => by
      rw [expand_eq]
      rfl
  have hnames : book.names = book.rules.flatMap fun r => [r.name] := List.map_eq_flatMap
  rw [hexpand, hnames, made]
  exact (List.flatMap_append_perm _ _ _).symm

/-- No two flat rules have one name: chains that meet start at the same rule, for rules'
names are taken. -/
theorem nodup_names_expansion (hnodup : book.names.Nodup) :
    (book.expansion.map FlatRule.name).Nodup := by
  rw [expansion, List.map_flatMap, List.nodup_flatMap]
  refine ⟨fun r _ => nodup_names_expand r, ?_⟩
  have hdiffer : book.rules.Pairwise fun p q => p.name ≠ q.name := List.pairwise_map.1 hnodup
  refine hdiffer.imp_of_mem fun {p q} hp hq hne => ?_
  intro x hxp hxq
  obtain ⟨f, hf, rfl⟩ := List.mem_map.1 hxp
  obtain ⟨f', hf', hsame⟩ := List.mem_map.1 hxq
  have hchain := descends_of_mem_expand p f hf
  have hchain' := hsame ▸ descends_of_mem_expand q f' hf'
  -- One rule's name would be given to a gate of the other.
  rcases hchain.comparable hchain' with h | h
  · exact hne (h.eq_of_taken (taken_of_mem_rules hq))
  · exact hne (h.eq_of_taken (taken_of_mem_rules hp)).symm

theorem nodup_names_append_made (hnodup : book.names.Nodup) : (book.names ++ book.made).Nodup :=
  (names_expansion_perm book).nodup_iff.1 (nodup_names_expansion hnodup)

theorem eq_of_mem_expansion (hnodup : book.names.Nodup) {f f' : FlatRule}
    (hf : f ∈ book.expansion) (hf' : f' ∈ book.expansion) (h : f.name = f'.name) : f = f' :=
  List.inj_on_of_nodup_map (nodup_names_expansion hnodup) hf hf' h

@[simp] theorem length_made (book : Rulebook) : book.made.length = book.inlineCount := by
  rw [made, inlineCount]
  induction book.rules with
  | nil => rfl
  | cons r rules ih =>
      rw [List.flatMap_cons, List.length_append, List.length_map, List.length_tail, length_expand,
        List.flatMap_cons, Parent.inlineCountAll_append, ih]
      rfl

/-- A given name is mentioned once, where its gate stood. -/
theorem count_mentions_expansion (book : Rulebook) (name : String) :
    (book.expansion.flatMap FlatRule.parents).count name =
      book.references.count name + book.made.count name := by
  rw [expansion, references, made]
  induction book.rules with
  | nil => rfl
  | cons r rules ih =>
      simp only [List.flatMap_cons, List.flatMap_append, List.count_append,
        count_mentions_expand]
      omega

theorem expand_subset_of_lift {r q : Rule} (hr : expand book.taken r ⊆ book.expansion)
    (hq : q ∈ (lift book.taken r).2) : expand book.taken q ⊆ book.expansion :=
  fun _ hf => hr (mem_expand_iff.2 (Or.inr ⟨q, hq, hf⟩))

theorem name_mem_made_of_lift {r q : Rule} (hr : expand book.taken r ⊆ book.expansion)
    (hq : q ∈ (lift book.taken r).2) : q.name ∈ book.made := by
  have hmem : (lift book.taken q).1 ∈ book.expansion :=
    expand_subset_of_lift hr hq (mem_expand_iff.2 (Or.inl rfl))
  have hname := (names_expansion_perm book).mem_iff.1 (List.mem_map_of_mem hmem)
  refine (List.mem_append.1 hname).resolve_left fun hold => ?_
  -- A name that is made is free, and names of rules are not.
  obtain ⟨k, hk, hdescends⟩ := descends_of_mem_lift hq
  have htaken : book.taken.contains q.name = true := taken_contains_iff.2 (Or.inl hold)
  exact numbered_ne_owner r.name k (hk.symm.trans (hdescends.eq_of_taken htaken).symm)

/-! ### The table of the expansion -/

/-- What flattening makes of a rulebook: one node for each flat rule. -/
structure Tabulates (book : Rulebook) (table : FlatTable) : Prop where
  wellFormed : table.WellFormed
  covered : table.Covered []
  named?_eq_some_iff : ∀ name node, table.named? name = some node ↔
    ∃ f ∈ book.expansion, f.name = name ∧ f.toNamed = node
  synthesized : table.stats.synthesized = book.made.length
  depth_le : ∀ r ∈ book.rules, r.gate.depth ≤ table.stats.rounds

theorem deepest_le_iff {n : Nat} : deepest book ≤ n ↔ ∀ r ∈ book.rules, r.gate.depth ≤ n := by
  have hfold : ∀ (rules : List Rule) (d : Nat),
      rules.foldl (fun d r => max d r.gate.depth) d ≤ n ↔
        d ≤ n ∧ ∀ r ∈ rules, r.gate.depth ≤ n := by
    intro rules
    induction rules with
    | nil => simp
    | cons p rules ih =>
        intro d
        rw [List.foldl_cons, ih, Nat.max_le, List.forall_mem_cons, and_assoc]
  rw [deepest, hfold, and_iff_right (Nat.zero_le n)]

theorem depth_le_deepest {r : Rule} (hr : r ∈ book.rules) : r.gate.depth ≤ deepest book :=
  deepest_le_iff.1 (Nat.le_refl _) r hr

theorem flatten?_eq_of_rounds {cap : Nat} {flat : List FlatRule} {stats : FlattenStats}
    (h : rounds (max cap (deepest book)) book.taken book.rules = some (flat, stats)) :
    book.flatten? cap = some (ofRules (flat.mergeSort Flatten.byName) stats) := by
  show (rounds _ book.taken book.rules).map _ = _
  rw [h]
  rfl

/-- The rounds end, whatever the cap. -/
theorem exists_rounds (book : Rulebook) (cap : Nat) :
    ∃ flat stats, rounds (max cap (deepest book)) book.taken book.rules = some (flat, stats) ∧
      Settles book.taken book.rules flat stats :=
  rounds_eq_some book.taken fun _ hr =>
    Nat.le_trans (depth_le_deepest hr) (Nat.le_max_right _ _)

theorem exists_settles (book : Rulebook) (cap : Nat) :
    ∃ flat stats, book.flatten? cap = some (ofRules (flat.mergeSort Flatten.byName) stats) ∧
      Settles book.taken book.rules flat stats := by
  obtain ⟨flat, stats, hrounds, hsettles⟩ := exists_rounds book cap
  exact ⟨flat, stats, flatten?_eq_of_rounds hrounds, hsettles⟩

theorem exists_tabulates (hnodup : book.names.Nodup) (cap : Nat) :
    ∃ table, book.flatten? cap = some table ∧ book.Tabulates table := by
  obtain ⟨flat, stats, hflatten, hsettles⟩ := exists_settles book cap
  have hperm : (flat.mergeSort Flatten.byName).Perm book.expansion :=
    (List.mergeSort_perm _ _).trans hsettles.perm
  have hnames : ((flat.mergeSort Flatten.byName).map FlatRule.name).Nodup :=
    (hperm.map _).nodup_iff.2 (nodup_names_expansion hnodup)
  obtain ⟨hwell, hcovered, hstats, hnamed⟩ := ofRules_spec stats hnames
  refine ⟨_, hflatten, hwell, hcovered, ?_, ?_, ?_⟩
  · intro name node
    rw [hnamed]
    exact exists_congr fun f => and_congr_left fun _ => hperm.mem_iff
  · have hlength := (names_expansion_perm book).length_eq
    have hflat := hsettles.perm.length_eq
    have hcount := hsettles.synthesized
    rw [List.length_map, List.length_append, names, List.length_map] at hlength
    rw [hstats]
    unfold expansion at hlength
    omega
  · rw [hstats]
    exact hsettles.depth_le

theorem Tabulates.named?_of_mem (h : book.Tabulates table) {f : FlatRule}
    (hf : f ∈ book.expansion) : table.named? f.name = some f.toNamed :=
  (h.named?_eq_some_iff _ _).2 ⟨f, hf, rfl, rfl⟩

/-- The table's nodes are the flat rules. -/
theorem Tabulates.entries_perm (h : book.Tabulates table) (hnodup : book.names.Nodup) :
    table.entries.Perm (book.expansion.map fun f => (f.name, f.toNamed)) := by
  exact entries_perm_of_named? h.wellFormed (nodup_names_expansion hnodup) h.named?_eq_some_iff

theorem Tabulates.names_perm (h : book.Tabulates table) (hnodup : book.names.Nodup) :
    table.names.Perm (book.names ++ book.made) := by
  have hperm := (h.entries_perm hnodup).map Prod.fst
  rw [List.map_map] at hperm
  exact hperm.trans (names_expansion_perm book)

/-- The mentions in the table are those in the rulebook, and the given names. -/
theorem Tabulates.count_mentions_eq (h : book.Tabulates table) (hnodup : book.names.Nodup)
    (name : String) :
    table.mentions.count name = book.references.count name + book.made.count name := by
  have hperm : table.mentions.Perm (book.expansion.flatMap FlatRule.parents) := by
    refine ((h.entries_perm hnodup).flatMap_right _).trans (.of_eq ?_)
    rw [List.flatMap_map]
    rfl
  rw [hperm.count_eq, count_mentions_expansion]

theorem Tabulates.count_mentions (h : book.Tabulates table) (hnodup : book.names.Nodup)
    {name : String} (hname : name ∈ book.made) : table.mentions.count name = 1 := by
  rw [h.count_mentions_eq hnodup,
    List.count_eq_zero_of_not_mem (fresh_of_mem_made hname).2,
    List.count_eq_one_of_mem (nodup_names_append_made hnodup).of_append_right hname]

/-! ### Putting gates back -/

theorem standsFor_of_notMem (table : FlatTable) {made : List String} {name : String}
    (h : name ∉ made) (depth : Nat) : table.standsFor made depth name = .named name := by
  cases depth with
  | zero => rfl
  | succ depth => rw [FlatTable.standsFor, if_neg h]

/-- The parents of a flat rule stand for the parents that were written. The induction
follows the gates outwards: the names of the rules made of `r` stand for its gates. -/
theorem Tabulates.map_standsFor (h : book.Tabulates table) (r : Rule)
    (hexpand : expand book.taken r ⊆ book.expansion)
    (hreferences : r.gate.references ⊆ book.references) (depth : Nat)
    (hdepth : r.gate.depth ≤ depth) :
    (lift book.taken r).1.parents.map (table.standsFor book.made depth) = r.gate.parents := by
  induction r using lift_induction book.taken generalizing depth with
  | step r ih =>
      apply map_liftParents
      · -- A name that was written is not a given one and stands for itself.
        intro name hname
        apply standsFor_of_notMem
        intro hmade
        have hmention : name ∈ r.gate.references :=
          Parent.references_subset hname (by rw [Parent.references]; exact List.mem_cons_self)
        exact (fresh_of_mem_made hmade).2 (hreferences hmention)
      · intro q hq
        have hlt : q.gate.depth < r.gate.depth := depth_lt_of_mem_lift hq
        obtain ⟨depth, rfl⟩ : ∃ d, depth = d + 1 := ⟨depth - 1, by omega⟩
        have hsubset := expand_subset_of_lift hexpand hq
        have hnamed := h.named?_of_mem (hsubset (mem_expand_iff.2 (Or.inl rfl)))
        have hinner := List.Subset.trans (references_of_mem_lift hq) hreferences
        have hparents := ih q hq hsubset hinner depth (by omega)
        rw [FlatTable.standsFor, if_pos (name_mem_made_of_lift hexpand hq)]
        rw [lift_fst] at hnamed hparents
        simp only [hnamed, FlatRule.toNamed, hparents]
        rfl

/-- A given name stands for its gate, with what the gate's parents stand for in place. -/
theorem Tabulates.standsFor_of_mem_tail (h : book.Tabulates table) (r : Rule)
    (hexpand : expand book.taken r ⊆ book.expansion)
    (hreferences : r.gate.references ⊆ book.references) {depth : Nat}
    (hdepth : r.gate.depth ≤ depth) :
    ∀ f ∈ (expand book.taken r).tail, table.standsFor book.made depth f.name =
      .inline f.kind (f.parents.map (table.standsFor book.made depth)) := by
  induction r using lift_induction book.taken with
  | step r ih =>
      intro f hf
      rw [tail_expand] at hf
      obtain ⟨q, hq, hf⟩ := List.mem_flatMap.1 hf
      have hlt : q.gate.depth < r.gate.depth := depth_lt_of_mem_lift hq
      have hsubset := expand_subset_of_lift hexpand hq
      have hinner := List.Subset.trans (references_of_mem_lift hq) hreferences
      rw [expand_eq, List.mem_cons, ← tail_expand] at hf
      rcases hf with rfl | htail
      · -- One level less of depth is enough for the parents.
        obtain ⟨depth, rfl⟩ : ∃ d, depth = d + 1 := ⟨depth - 1, by omega⟩
        have hnamed := h.named?_of_mem (hsubset (mem_expand_iff.2 (Or.inl rfl)))
        have hbelow := h.map_standsFor q hsubset hinner depth (by omega)
        have habove := h.map_standsFor q hsubset hinner (depth + 1) (by omega)
        rw [habove, lift_fst]
        rw [lift_fst] at hnamed hbelow
        rw [FlatTable.standsFor, if_pos (name_mem_made_of_lift hexpand hq)]
        simp only [hnamed, FlatRule.toNamed, hbelow]
      · exact ih q hq hsubset hinner (by omega) f htail

theorem expand_subset {r : Rule} (hr : r ∈ book.rules) :
    expand book.taken r ⊆ book.expansion :=
  fun _ hf => mem_expansion_iff.2 ⟨r, hr, hf⟩

/-- Every rule has a node, whose parents stand for the parents that were written. -/
theorem Tabulates.exists_node_of_rule (h : book.Tabulates table) {r : Rule}
    (hr : r ∈ book.rules) {depth : Nat} (hdepth : r.gate.depth ≤ depth) :
    ∃ node, table.named? r.name = some node ∧ node.placements = [] ∧ node.kind = r.gate.kind ∧
      node.parents.map (table.standsFor book.made depth) = r.gate.parents := by
  have hexpand := expand_subset hr
  have hnamed := h.named?_of_mem (hexpand (mem_expand_iff.2 (Or.inl rfl)))
  have hparents := h.map_standsFor r hexpand (references_subset hr) depth hdepth
  rw [lift_fst] at hnamed hparents
  exact ⟨_, hnamed, rfl, rfl, hparents⟩

theorem Tabulates.exists_node_of_made (h : book.Tabulates table) {name : String}
    (hname : name ∈ book.made) :
    ∃ node, table.named? name = some node ∧ node.placements = [] ∧
      table.standsFor book.made table.stats.rounds name =
        .inline node.kind (node.parents.map (table.standsFor book.made table.stats.rounds)) := by
  obtain ⟨r, hr, hmem⟩ := List.mem_flatMap.1 hname
  obtain ⟨f, hf, rfl⟩ := List.mem_map.1 hmem
  have hexpand := expand_subset hr
  refine ⟨f.toNamed, h.named?_of_mem (hexpand (List.mem_of_mem_tail hf)), rfl, ?_⟩
  exact h.standsFor_of_mem_tail r hexpand (references_subset hr) (h.depth_le r hr) f hf

theorem Tabulates.named?_eq_none (h : book.Tabulates table) {name : String}
    (hname : name ∉ book.names) (hmade : name ∉ book.made) : table.named? name = none := by
  rw [Option.eq_none_iff_forall_ne_some]
  intro node hnode
  obtain ⟨f, hf, rfl, -⟩ := (h.named?_eq_some_iff name node).1 hnode
  have hmem := (names_expansion_perm book).mem_iff.1 (List.mem_map_of_mem hf)
  exact (List.mem_append.1 hmem).elim hname hmade

/-- Every rule can be read back from the table. -/
theorem Tabulates.gateOf?_eq (h : book.Tabulates table) {r : Rule} (hr : r ∈ book.rules)
    {depth : Nat} (hdepth : r.gate.depth ≤ depth) :
    table.gateOf? book.made depth r.name = some r.gate := by
  obtain ⟨node, hnode, -, hkind, hparents⟩ := h.exists_node_of_rule hr hdepth
  rw [FlatTable.gateOf?, hnode, Option.map_some, hkind, hparents]

/-! ### Belonging -/

/-- Everything in the expansion of a rule belongs where the rule belongs. -/
theorem Tabulates.belongsTo_of_mem_expand (h : book.Tabulates table) (r : Rule)
    (hexpand : expand book.taken r ⊆ book.expansion) {root : String}
    (hroot : table.BelongsTo book.made r.name root) :
    ∀ f ∈ expand book.taken r, table.BelongsTo book.made f.name root := by
  induction r using lift_induction book.taken with
  | step r ih =>
      intro f hf
      rcases mem_expand_iff.1 hf with rfl | ⟨q, hq, hf⟩
      · exact hroot
      · have hnamed := h.named?_of_mem (hexpand (mem_expand_iff.2 (Or.inl rfl)))
        refine ih q hq (expand_subset_of_lift hexpand hq) ?_ f hf
        exact .inside hroot hnamed (name_mem_liftParents r book.taken 0 _ q hq)
          (name_mem_made_of_lift hexpand hq)

/-- A given name that a flat rule mentions is made in the same expansion. -/
theorem mem_expand_of_mention (hnodup : book.names.Nodup) {r : Rule} (hr : r ∈ book.rules)
    {owner f : FlatRule} (howner : owner ∈ expand book.taken r) (hf : f ∈ book.expansion)
    (hmention : f.name ∈ owner.parents) (hmade : f.name ∈ book.made) :
    f ∈ expand book.taken r := by
  -- The name is not written anywhere, so the mention comes from a gate of this expansion.
  have hcount := count_mentions_expand book.taken f.name r
  have hpos : 0 < ((expand book.taken r).flatMap FlatRule.parents).count f.name :=
    List.count_pos_iff.2 (List.mem_flatMap.2 ⟨owner, howner, hmention⟩)
  have hnone : r.gate.references.count f.name = 0 :=
    List.count_eq_zero_of_not_mem fun hold =>
      (fresh_of_mem_made hmade).2 (references_subset hr hold)
  have hmem : f.name ∈ (expand book.taken r).tail.map FlatRule.name :=
    List.count_pos_iff.1 (by omega)
  obtain ⟨f', hf', heq⟩ := List.mem_map.1 hmem
  have hf'mem := List.mem_of_mem_tail hf'
  rw [eq_of_mem_expansion hnodup hf (expand_subset hr hf'mem) heq.symm]
  exact hf'mem

/-- A name belongs only to the rule in whose expansion it stands. -/
theorem Tabulates.mem_expand_of_belongsTo (h : book.Tabulates table)
    (hnodup : book.names.Nodup) {name root : String}
    (hbelongs : table.BelongsTo book.made name root) :
    ∀ f ∈ book.expansion, f.name = name →
      ∃ r ∈ book.rules, r.name = root ∧ f ∈ expand book.taken r := by
  induction hbelongs with
  | @self name hold =>
      rintro f hf rfl
      obtain ⟨r, hr, hmem⟩ := mem_expansion_iff.1 hf
      refine ⟨r, hr, ?_, hmem⟩
      rw [expand_eq, List.mem_cons, ← tail_expand] at hmem
      rcases hmem with rfl | htail
      · rfl
      · exact absurd (List.mem_flatMap.2 ⟨r, hr, List.mem_map_of_mem htail⟩) hold
  | @inside name owner root node _ hnode hmention hmade ih =>
      rintro f hf rfl
      obtain ⟨f', hf', heq, rfl⟩ := (h.named?_eq_some_iff owner node).1 hnode
      obtain ⟨r, hr, hroot, hmem⟩ := ih f' hf' heq
      exact ⟨r, hr, hroot, mem_expand_of_mention hnodup hr hmem hf hmention hmade⟩

/-- A node has the source of the rule that it belongs to, and is an item only if it is that
rule. -/
theorem source_of_mem_expand {r : Rule} {f : FlatRule} (hf : f ∈ expand book.taken r) :
    f.source = r.source ∧ (f.placeable = true ↔ f.name = r.name ∧ r.placeable = true) := by
  obtain ⟨hsource, hplaceable⟩ := Flatten.source_of_mem_expand r f hf
  refine ⟨hsource, ?_⟩
  rw [expand_eq, List.mem_cons, ← tail_expand] at hf
  rcases hf with rfl | htail
  · rw [lift_fst]
    exact ⟨fun hitem => ⟨rfl, hitem⟩, fun hitem => hitem.2⟩
  · have hlt := length_lt_of_mem_tail htail
    have hne : f.name ≠ r.name := fun heq => Nat.lt_irrefl _ (heq ▸ hlt)
    have hplain : f.placeable = false := by
      refine hplaceable.resolve_left ?_
      rintro rfl
      exact hne rfl
    rw [hplain]
    exact ⟨fun hitem => absurd hitem Bool.false_ne_true, fun hitem => absurd hitem.1 hne⟩

/-- Nodes that are marked, of any kinds that pass the test, are rules of the rulebook that are
marked. A gate written in place is none, for its node is never marked. -/
theorem Tabulates.any_placeable_iff (h : book.Tabulates table) (test : Kind → Bool)
    (name : String) :
    (table.named? name).any (fun node => node.placeable && test node.kind) = true ↔
      ∃ r ∈ book.rules, r.name = name ∧ r.placeable = true ∧ test r.gate.kind = true := by
  rw [Option.any_eq_true]
  constructor
  · rintro ⟨node, hnode, hmarked⟩
    obtain ⟨f, hf, rfl, rfl⟩ := (h.named?_eq_some_iff name node).1 hnode
    obtain ⟨hplaceable, htest⟩ := Bool.and_eq_true_iff.1 hmarked
    obtain ⟨r, hr, hfr⟩ := mem_expansion_iff.1 hf
    rcases (Flatten.source_of_mem_expand r f hfr).2 with rfl | hplain
    · exact ⟨r, hr, rfl, hplaceable, htest⟩
    · exact absurd (hplain.symm.trans hplaceable) Bool.false_ne_true
  · rintro ⟨r, hr, rfl, hplaceable, htest⟩
    refine ⟨_, h.named?_of_mem (expand_subset hr (mem_expand_iff.2 (Or.inl rfl))), ?_⟩
    exact Bool.and_eq_true_iff.2 ⟨hplaceable, htest⟩

/-! ### Main statement -/

/-- What a flat table keeps of the tables it comes from, if the names in `made` are the ones
that were given to gates. -/
structure KeptBy (tables : List Table) (book : Rulebook) (table : FlatTable)
    (made : List String) : Prop where
  /-- Every rule and every given name has one node, and nothing else has. -/
  names_perm : table.names.Perm (book.names ++ made)
  nodup : (book.names ++ made).Nodup
  fresh : ∀ name ∈ made, name ∉ book.names ∧ name ∉ book.references
  /-- Every gate written in place has got a name. -/
  length_made : made.length = book.inlineCount
  synthesized : table.stats.synthesized = made.length
  mentioned_once : ∀ name ∈ made, table.mentions.count name = 1
  /-- With gates back in their places, every rule is as it was written. -/
  gateOf?_eq : ∀ r ∈ book.rules,
    table.gateOf? made table.stats.rounds r.name = some r.gate
  belongs : ∀ name ∈ table.names, ∃ root ∈ book.names, table.BelongsTo made name root
  /-- The source is the table of the outermost rule, and items are rules of tables of
  items. -/
  source : ∀ name node root, table.named? name = some node → table.BelongsTo made name root →
    ∃ t ∈ tables, ∃ gate, (root, gate) ∈ t.entries ∧ node.source = t.name ∧
      (node.placeable = true ↔ name = root ∧ t.placeable = true)

/-- Flattening loses, doubles and captures nothing. -/
theorem exists_flatten?_kept {tables : List Table} (hmerge : ofTables tables = .ok book)
    (cap : Nat) :
    ∃ table made, book.flatten? cap = some table ∧ KeptBy tables book table made := by
  have hnodup := names_nodup hmerge
  obtain ⟨table, hflatten, h⟩ := exists_tabulates hnodup cap
  refine ⟨table, book.made, hflatten, h.names_perm hnodup, nodup_names_append_made hnodup,
    fun name => fresh_of_mem_made, length_made book, h.synthesized,
    fun name => h.count_mentions hnodup, fun r hr => h.gateOf?_eq hr (h.depth_le r hr), ?_, ?_⟩
  · intro name hname
    have hmem := (names_expansion_perm book).mem_iff.2 ((h.names_perm hnodup).mem_iff.1 hname)
    obtain ⟨f, hf, rfl⟩ := List.mem_map.1 hmem
    obtain ⟨r, hr, hfr⟩ := mem_expansion_iff.1 hf
    have hrname : r.name ∈ book.names := List.mem_map_of_mem hr
    have hself : table.BelongsTo book.made r.name r.name :=
      .self fun hmade => (fresh_of_mem_made hmade).1 hrname
    exact ⟨r.name, hrname, h.belongsTo_of_mem_expand r (expand_subset hr) hself f hfr⟩
  · intro name node root hnode hbelongs
    obtain ⟨f, hf, rfl, rfl⟩ := (h.named?_eq_some_iff name node).1 hnode
    obtain ⟨r, hr, rfl, hfr⟩ := h.mem_expand_of_belongsTo hnodup hbelongs f hf rfl
    obtain ⟨hsource, hitem⟩ := source_of_mem_expand hfr
    obtain ⟨t, ht, hentry, hlabel, hplaceable⟩ := exists_table hmerge hr
    refine ⟨t, ht, r.gate, hentry, hsource.trans hlabel, ?_⟩
    rw [← hplaceable]
    exact hitem

/-- A gate inside a gate, in a rule that mentions the first name that would be given. -/
def vaultTables : List Table :=
  [⟨"world", false, [("vault", ⟨.and, [.named "vault 1",
      .inline .or [.named "key", .inline (.count 2) [.named "key"]]]⟩)]⟩,
    ⟨"items", true, [("key", .root)]⟩]

def vaultBook : Rulebook :=
  ⟨[⟨"key", .root, "items", true⟩,
    ⟨"vault", ⟨.and, [.named "vault 1",
      .inline .or [.named "key", .inline (.count 2) [.named "key"]]]⟩, "world", false⟩]⟩

theorem exists_flatten?_vaultBook :
    ofTables vaultTables = .ok vaultBook ∧
      ∃ table made, vaultBook.flatten? 64 = some table ∧
        KeptBy vaultTables vaultBook table made :=
  ⟨by cbv, exists_flatten?_kept (by cbv) 64⟩

end Rulebook

end Progression

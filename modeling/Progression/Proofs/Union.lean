import Progression.Proofs.Building
import Progression.Proofs.Validating

/-!
Rulebooks as unions. Main statement: tables merge exactly if no name is written twice in them, and
the rulebook then is their union, so that neither the order of the entries nor which of several
like tables they stand in decides anything that follows. If tables do not merge, the error tells
of the first entry whose name has been read before.
-/

namespace Progression

namespace Rulebook

/-- The rulebook holds every entry of the tables once, with its table as the source, in the order
of the names. -/
structure IsUnion (book : Rulebook) (tables : List Table) : Prop where
  sorted : book.rules.Pairwise fun r s => r.name < s.name
  perm : book.rules.Perm (tables.flatMap Table.rules)
  find?_eq_some_iff : ∀ name r, book.find? name = some r ↔
    ∃ t ∈ tables, ∃ gate, (name, gate) ∈ t.entries ∧ r = ⟨name, gate, t.name, t.placeable⟩

/-- What is read before an entry: the tables before its own, and the entries above it. -/
def rulesBefore (earlier : List Table) (t : Table) (above : List (String × Gate)) : List Rule :=
  earlier.flatMap Table.rules ++ { t with entries := above }.rules

/-- The first entry whose name has been read before, with the tables of both. -/
inductive FirstClash (tables : List Table) : MergeError → Prop
  | intro {earlier later : List Table} {t : Table} {above below : List (String × Gate)}
      {gate : Gate} {first : Rule} : tables = earlier ++ t :: later →
      t.entries = above ++ (first.name, gate) :: below →
      ((rulesBefore earlier t above).map Rule.name).Nodup → first ∈ rulesBefore earlier t above →
      FirstClash tables (.duplicateName first.name first.source t.name)

variable {tables tables' : List Table} {book : Rulebook}

/-! ### When tables merge -/

theorem names_flatMap_rules (tables : List Table) :
    (tables.flatMap Table.rules).map Rule.name =
      tables.flatMap fun t => t.entries.map Prod.fst := by
  rw [List.map_flatMap]
  refine List.flatMap_congr fun t _ => ?_
  rw [Table.rules, List.map_map]
  rfl

theorem ofTables_eq_ok_iff :
    ofTables tables = .ok book ↔ ((tables.flatMap Table.rules).map Rule.name).Nodup ∧
      book = ⟨(tables.flatMap Table.rules).mergeSort byName⟩ := by
  have hclash := clash?_eq_none_iff (tables.flatMap Table.rules) []
  simp only [List.not_mem_nil, false_implies, implies_true, and_true] at hclash
  rw [← hclash, ofTables]
  cases hfind : clash? [] (tables.flatMap Table.rules) with
  | some pair => simp
  | none => simp [eq_comm]

theorem exists_ofTables_iff :
    (∃ book, ofTables tables = .ok book) ↔
      (tables.flatMap fun t => t.entries.map Prod.fst).Nodup := by
  rw [← names_flatMap_rules]
  constructor
  · rintro ⟨book, hmerge⟩
    exact (ofTables_eq_ok_iff.1 hmerge).1
  · exact fun hnodup => ⟨_, ofTables_eq_ok_iff.2 ⟨hnodup, rfl⟩⟩

theorem sorted_rules (h : ofTables tables = .ok book) :
    book.rules.Pairwise fun r s => r.name < s.name := by
  obtain ⟨hnodup, rfl⟩ := ofTables_eq_ok_iff.1 h
  exact pairwise_lt_mergeSort_key (fun _ _ => decide_eq_true_iff) hnodup

theorem isUnion (h : ofTables tables = .ok book) : book.IsUnion tables where
  sorted := sorted_rules h
  perm := rules_perm h
  find?_eq_some_iff name r := by
    constructor
    · intro hfind
      obtain rfl : r.name = name := by simpa using List.find?_some hfind
      obtain ⟨t, ht, hentry, hsource, hplaceable⟩ :=
        (mem_rules_iff h).1 (List.mem_of_find?_eq_some hfind)
      exact ⟨t, ht, r.gate, hentry, by rw [← hsource, ← hplaceable]⟩
    · rintro ⟨t, ht, gate, hentry, rfl⟩
      have hr : ⟨name, gate, t.name, t.placeable⟩ ∈ book.rules :=
        (mem_rules_iff h).2 ⟨t, ht, hentry, rfl, rfl⟩
      exact find?_key_eq_some Rule.name (names_nodup h) hr

/-- Two unions of the same entries have the same rules in the same order. -/
theorem IsUnion.eq_of_perm {book' : Rulebook} (h : book.IsUnion tables)
    (h' : book'.IsUnion tables') (hperm : (tables'.flatMap Table.rules).Perm
      (tables.flatMap Table.rules)) : book' = book := by
  have hrules : book'.rules.Perm book.rules := h'.perm.trans (hperm.trans h.perm.symm)
  have heq : book'.rules = book.rules :=
    List.Perm.eq_of_pairwise (fun r s _ _ hrs hsr => absurd hsr hrs.asymm) h'.sorted h.sorted hrules
  cases book
  cases book'
  exact congrArg Rulebook.mk heq

theorem ofTables_of_perm (h : ofTables tables = .ok book)
    (hperm : (tables'.flatMap Table.rules).Perm (tables.flatMap Table.rules)) :
    ofTables tables' = .ok book := by
  have hnodup : ((tables'.flatMap Table.rules).map Rule.name).Nodup :=
    (hperm.map Rule.name).nodup_iff.2 (ofTables_eq_ok_iff.1 h).1
  have h' := ofTables_eq_ok_iff.2 ⟨hnodup, rfl⟩
  rw [h', (isUnion h).eq_of_perm (isUnion h') hperm]

/-! ### When they do not -/

/-- A clash splits the rules: nothing clashes before it. -/
theorem exists_split_of_clash? {seen rules : List Rule} {first second : Rule}
    (hseen : (seen.map Rule.name).Nodup) (h : clash? seen rules = some (first, second)) :
    ∃ before after, rules = before ++ second :: after ∧
      ((seen ++ before).map Rule.name).Nodup ∧ first ∈ seen ++ before ∧
      first.name = second.name := by
  induction rules generalizing seen with
  | nil => contradiction
  | cons r rules ih =>
      rw [clash?] at h
      cases hfind : seen.find? (·.name == r.name) with
      | some found =>
          rw [hfind] at h
          obtain ⟨rfl, rfl⟩ := Prod.mk.inj (Option.some.inj h)
          rw [← List.append_nil seen] at hseen
          exact ⟨[], rules, rfl, hseen, List.mem_append_left _ (List.mem_of_find?_eq_some hfind),
            by simpa using List.find?_some hfind⟩
      | none =>
          rw [hfind] at h
          have hnew : r.name ∉ seen.map Rule.name := by
            simpa using List.find?_eq_none.1 hfind
          have hseen' : ((r :: seen).map Rule.name).Nodup := List.nodup_cons.2 ⟨hnew, hseen⟩
          obtain ⟨before, after, rfl, hnodup, hfirst, hname⟩ := ih hseen' h
          have hperm : (r :: seen ++ before).Perm (seen ++ r :: before) := List.perm_middle.symm
          exact ⟨r :: before, after, rfl, (hperm.map Rule.name).nodup_iff.1 hnodup,
            hperm.mem_iff.1 hfirst, hname⟩

/-- A rule clashes with the one before it that has its name. -/
theorem clash?_append {seen before after : List Rule} {first second : Rule}
    (hnodup : ((seen ++ before).map Rule.name).Nodup) (hfirst : first ∈ seen ++ before)
    (hname : first.name = second.name) :
    clash? seen (before ++ second :: after) = some (first, second) := by
  induction before generalizing seen with
  | nil =>
      rw [List.append_nil] at hnodup hfirst
      rw [List.nil_append, clash?, ← hname, find?_key_eq_some Rule.name hnodup hfirst]
  | cons r before ih =>
      have hperm : (seen ++ r :: before).Perm (r :: seen ++ before) := List.perm_middle
      have hnodup' := (hperm.map Rule.name).nodup_iff.1 hnodup
      have hnew : seen.find? (·.name == r.name) = none := by
        rw [List.cons_append, List.map_cons, List.nodup_cons, List.map_append,
          List.mem_append, not_or] at hnodup'
        simpa using hnodup'.1.1
      rw [List.cons_append, clash?, hnew]
      exact ih hnodup' (hperm.mem_iff.1 hfirst)

/-- Every rule is read at an entry of some table. -/
theorem exists_entry_of_split {before after : List Rule} {r : Rule}
    (h : tables.flatMap Table.rules = before ++ r :: after) :
    ∃ earlier t later above below, tables = earlier ++ t :: later ∧
      t.entries = above ++ (r.name, r.gate) :: below ∧ before = rulesBefore earlier t above ∧
      r.source = t.name := by
  induction tables generalizing before with
  | nil => simp at h
  | cons t tables ih =>
      -- The entry may stand in a later table, and then all of this one is read before it.
      have hlater : ∀ {before}, tables.flatMap Table.rules = before ++ r :: after →
          ∃ earlier u later above below, t :: tables = earlier ++ u :: later ∧
            u.entries = above ++ (r.name, r.gate) :: below ∧
            t.rules ++ before = rulesBefore earlier u above ∧ r.source = u.name := by
        intro before hrest
        obtain ⟨earlier, u, later, above, below, rfl, hentries, rfl, hsource⟩ := ih hrest
        refine ⟨t :: earlier, u, later, above, below, rfl, hentries, ?_, hsource⟩
        rw [rulesBefore, rulesBefore, List.flatMap_cons, List.append_assoc]
      rw [List.flatMap_cons, List.append_eq_append_iff] at h
      rcases h with ⟨rest, rfl, hrest⟩ | ⟨_ | ⟨_, rest⟩, hown, hrest⟩
      · exact hlater hrest
      · rw [List.append_nil] at hown
        rw [← hown, ← List.append_nil t.rules]
        exact hlater hrest.symm
      · obtain ⟨rfl, rfl⟩ := List.cons.inj hrest
        obtain ⟨above, tail, hentries, rfl, htail⟩ := List.map_eq_append_iff.1 hown
        obtain ⟨entry, below, rfl, rfl, -⟩ := List.map_eq_cons_iff.1 htail
        exact ⟨[], t, tables, above, below, rfl, hentries, rfl, rfl⟩

theorem flatMap_rules_split {earlier later : List Table} {t : Table}
    {above below : List (String × Gate)} {name : String} {gate : Gate}
    (hentries : t.entries = above ++ (name, gate) :: below) :
    (earlier ++ t :: later).flatMap Table.rules =
      rulesBefore earlier t above ++ ⟨name, gate, t.name, t.placeable⟩ ::
        ({ t with entries := below }.rules ++ later.flatMap Table.rules) := by
  simp [rulesBefore, Table.rules, hentries]

/-- The error is the first clash. -/
theorem ofTables_eq_error_iff {e : MergeError} :
    ofTables tables = .error e ↔ FirstClash tables e := by
  constructor
  · intro h
    cases hfind : clash? [] (tables.flatMap Table.rules) with
    | none => simp [ofTables, hfind] at h
    | some pair =>
        obtain ⟨first, second⟩ := pair
        obtain ⟨before, after, hsplit, hnodup, hfirst, hname⟩ :=
          exists_split_of_clash? (by simp) hfind
        obtain ⟨earlier, t, later, above, below, htables, hentries, rfl, hsource⟩ :=
          exists_entry_of_split hsplit
        simp only [ofTables, hfind, Except.error.injEq] at h
        rw [← h, ← hname, hsource]
        rw [← hname] at hentries
        exact .intro htables hentries hnodup hfirst
  · intro h
    cases h with
    | @intro earlier later t above below gate first htables hentries hnodup hfirst =>
        have hclash : clash? [] (tables.flatMap Table.rules) =
            some (first, ⟨first.name, gate, t.name, t.placeable⟩) := by
          rw [htables, flatMap_rules_split hentries]
          exact clash?_append hnodup hfirst rfl
        simp only [ofTables, hclash]

end Rulebook

/-! ### Main statement -/

/-- What was compiled, wherever its events go. -/
def Compiled.content (k : Compiled) : FlatTable × List Exemption :=
  (k.table, k.unused)

/-- Compilers with one rulebook, policy and cap compile the same. -/
theorem Compiler.content_eq {c c' : Compiler} {book : Rulebook}
    (hmerge : Rulebook.ofTables c.tables = .ok book)
    (hmerge' : Rulebook.ofTables c'.tables = .ok book) (hpolicy : c'.policy = c.policy)
    (hcap : c'.maxRounds = c.maxRounds) (journal journal' : Journal) :
    (c'.compile.run journal').1.map Compiled.content =
      (c.compile.run journal).1.map Compiled.content := by
  obtain ⟨table, hflatten, -⟩ :=
    Rulebook.exists_tabulates (Rulebook.names_nodup hmerge) c.maxRounds
  have hflatten' : book.flatten? c'.maxRounds = some table := by rw [hcap, hflatten]
  rw [compile_eq_validate hmerge hflatten, compile_eq_validate hmerge' hflatten', hpolicy]
  cases table.validate c.policy <;> rfl

/-- Merging is the disjoint union of the tables, or tells of the first name that is read twice. -/
theorem Rulebook.ofTables_isUnion (tables : List Table) :
    ((∃ book, ofTables tables = .ok book) ↔
      (tables.flatMap fun t => t.entries.map Prod.fst).Nodup) ∧
    (∀ book, ofTables tables = .ok book → book.IsUnion tables ∧
      ∀ tables', (tables'.flatMap Table.rules).Perm (tables.flatMap Table.rules) →
        ofTables tables' = .ok book ∧
        ∀ (c c' : Compiler) (journal journal' : Journal), c.tables = tables →
          c'.tables = tables' → c'.policy = c.policy → c'.maxRounds = c.maxRounds →
          (c'.compile.run journal').1.map Compiled.content =
            (c.compile.run journal).1.map Compiled.content) ∧
    ∀ e, ofTables tables = .error e ↔ FirstClash tables e := by
  refine ⟨exists_ofTables_iff, fun book hmerge => ⟨isUnion hmerge, fun tables' hperm => ?_⟩,
    fun e => ofTables_eq_error_iff⟩
  have hmerge' := ofTables_of_perm hmerge hperm
  refine ⟨hmerge', fun c c' journal journal' hc hc' hpolicy hcap => ?_⟩
  rw [← hc] at hmerge
  rw [← hc'] at hmerge'
  exact Compiler.content_eq hmerge hmerge' hpolicy hcap journal journal'

/-- Two items in tables of one name, with a rule read between them. -/
def splitTables : List Table :=
  [⟨"a", true, [("x", .root)]⟩, ⟨"b", false, [("y", ⟨.andSlot, [.named "x", .named "z"]⟩)]⟩,
    ⟨"a", true, [("z", .root)]⟩]

/-- Joining the halves changes nothing; a third table that has `x` once more is refused. -/
theorem ofTables_isUnion_split :
    (∃ book, Rulebook.ofTables splitTables = .ok book ∧ book.IsUnion splitTables ∧
      Rulebook.ofTables [⟨"b", false, [("y", ⟨.andSlot, [.named "x", .named "z"]⟩)]⟩,
        ⟨"a", true, [("z", .root), ("x", .root)]⟩] = .ok book) ∧
    Rulebook.FirstClash (splitTables ++ [⟨"c", false, [("w", .root), ("x", .root)]⟩])
      (.duplicateName "x" "a" "c") := by
  obtain ⟨hmerges, hunion, -⟩ := Rulebook.ofTables_isUnion splitTables
  obtain ⟨book, hmerge⟩ := hmerges.2 (by decide)
  obtain ⟨hbook, hperm⟩ := hunion book hmerge
  refine ⟨⟨book, hmerge, hbook, (hperm _ (by decide)).1⟩, ?_⟩
  exact ((Rulebook.ofTables_isUnion _).2.2 _).1 (by cbv)

end Progression

import Mathlib
import Progression.Compiler
import Progression.Proofs.Flattening
import Progression.Proofs.Freezing

/-!
Building a graph: a compilation, then links in any number and order, then a freeze. Tables
keep to their rules all along, so that the graph has one node for each name and lists the
dependents of its own nodes.
-/

namespace Progression

variable {c : Compiler} {k : Compiled} {g : Graph} {journal : Journal}

/-- A compilation succeeds if its stages do. -/
theorem Compiler.compile_eq_ok_iff :
    (c.compile.run journal).1 = .ok k ↔
      ∃ book table, Rulebook.ofTables c.tables = .ok book ∧
        book.flatten? c.maxRounds = some table ∧ table.validate c.policy = .ok () ∧
        k = ⟨table, c.policy.unused table, c.sink⟩ := by
  show c.outcome.1 = .ok k ↔ _
  unfold outcome
  constructor
  · intro h
    split at h
    case h_1 => contradiction
    case h_2 book hmerge =>
        split at h
        case h_1 => contradiction
        case h_2 table hflatten =>
            split at h
            case h_1 => contradiction
            case h_2 hvalid => exact ⟨book, table, hmerge, hflatten, hvalid, (Except.ok.inj h).symm⟩
  · rintro ⟨book, table, hmerge, hflatten, hvalid, rfl⟩
    simp only [hmerge, hflatten, hvalid]

/-- What is compiled is the flat table of the merged tables. -/
theorem Compiler.exists_tabulates (h : (c.compile.run journal).1 = .ok k) :
    ∃ book, Rulebook.ofTables c.tables = .ok book ∧ book.Tabulates k.table := by
  obtain ⟨book, table, hmerge, hflatten, -, rfl⟩ := compile_eq_ok_iff.1 h
  obtain ⟨table', hflatten', htabulates⟩ :=
    Rulebook.exists_tabulates (Rulebook.names_nodup hmerge) c.maxRounds
  obtain rfl := Option.some.inj (hflatten.symm.trans hflatten')
  exact ⟨book, hmerge, htabulates⟩

/-- What can be had by flattening and linking. -/
inductive FlatTable.Linked : FlatTable → Prop
  | flatten {tables : List Table} {book : Rulebook} {cap : Nat} {table : FlatTable} :
      Rulebook.ofTables tables = .ok book → book.flatten? cap = some table → Linked table
  | link {table : FlatTable} (records : List Placement) :
      Linked table → Linked (table.link records).1

namespace FlatTable.Linked

variable {table : FlatTable}

theorem wellFormed_covered (h : table.Linked) : table.WellFormed ∧ table.Covered [] := by
  induction h with
  | @flatten tables book cap table hmerge hflatten =>
      obtain ⟨table', hflatten', htabulates⟩ :=
        Rulebook.exists_tabulates (Rulebook.names_nodup hmerge) cap
      obtain rfl := Option.some.inj (hflatten.symm.trans hflatten')
      exact ⟨htabulates.wellFormed, htabulates.covered⟩
  | link records _ ih => exact ⟨ih.1.link records, ih.2.link ih.1 records⟩

theorem wellFormed (h : table.Linked) : table.WellFormed :=
  h.wellFormed_covered.1

theorem covered (h : table.Linked) : table.Covered [] :=
  h.wellFormed_covered.2

end FlatTable.Linked

namespace Compiled

/-- What can be had by compiling and linking. -/
inductive Built : Compiled → Prop
  | compile {c : Compiler} {k : Compiled} (journal : Journal) :
      (c.compile.run journal).1 = .ok k → Built k
  | link {k : Compiled} (journal : Journal) (records : List Placement) :
      Built k → Built ((k.link records).run journal).1.1

theorem Built.linked (h : k.Built) : k.table.Linked := by
  induction h with
  | compile journal hcompile =>
      obtain ⟨book, table, hmerge, hflatten, -, rfl⟩ := Compiler.compile_eq_ok_iff.1 hcompile
      exact .flatten hmerge hflatten
  | link journal records _ ih => exact .link records ih

theorem Built.wellFormed (h : k.Built) : k.table.WellFormed :=
  h.linked.wellFormed

theorem Built.covered (h : k.Built) : k.table.Covered [] :=
  h.linked.covered

theorem Built.numbers (h : k.Built) (hfreeze : (k.freeze.run journal).1 = .ok g) :
    g.Numbers k.table :=
  FlatTable.numbers_of_freeze h.wellFormed h.covered hfreeze

end Compiled

/-! ### An example -/

/-- Door `d` asks for two producers of key `k`. The key names its only producer twice. -/
def doorCompiler : Compiler where
  tables := [⟨"t", false, [("a", .root), ("k", ⟨.or, [.named "a", .named "a"]⟩),
    ("d", .count 2 "k"), ("s", ⟨.andSlot, [.named "d"]⟩)]⟩]

def doorGraph : Graph :=
  ⟨[⟨"a", ⟨.root, [], []⟩, "t", false⟩, ⟨"d", ⟨.count 2, [2], []⟩, "t", false⟩,
    ⟨"k", ⟨.or, [0, 0], []⟩, "t", false⟩, ⟨"s", ⟨.andSlot, [1], []⟩, "t", false⟩],
    [[1, 2], [3], [1], []]⟩

theorem exists_eq_ok_of_map {ε α β : Type} {result : Except ε α} {f : α → β} {b : β}
    (h : result.map f = .ok b) : ∃ a, result = .ok a ∧ f a = b := by
  cases result with
  | error e => contradiction
  | ok a => exact ⟨a, rfl, Except.ok.inj h⟩

theorem exists_doorGraph :
    ∃ k, (doorCompiler.compile.run {}).1 = .ok k ∧ (k.freeze.run {}).1 = .ok doorGraph := by
  have hgraph : ((doorCompiler.compile.run {}).1.map fun k => (k.freeze.run {}).1) =
      .ok (.ok doorGraph) := by cbv
  exact exists_eq_ok_of_map hgraph

end Progression

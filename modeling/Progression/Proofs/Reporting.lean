import Progression.Proofs.Relinking

/-!
What a memory sink holds after a whole run: a compilation, then links in any number, then a
freeze. Main statement: every stage has reported once and in its turn, what it reports is what it
returned, and the counters of all stages add up. The nodes of the graph are the rules, the names
given by flattening and the nodes made by linking; its placements are the edges that were added.
-/

namespace Progression

/-! ### Memory sinks -/

namespace Journal

variable {journal : Journal} {slot : Nat} {held : List Event}

theorem events_eq (h : journal.memories[slot]? = some held) :
    journal.events (.memory slot) = held := by
  simp [events, h]

theorem memories_record (h : journal.memories[slot]? = some held) (event : Event) :
    (journal.record (.memory slot) event).memories[slot]? = some (held ++ [event]) := by
  simp [record, h]

theorem memories_recordAll (h : journal.memories[slot]? = some held) (events : List Event) :
    (journal.recordAll (.memory slot) events).memories[slot]? = some (held ++ events) := by
  induction events generalizing journal held with
  | nil => simpa [recordAll] using h
  | cons event events ih =>
      have hrest := ih (memories_record h event)
      rw [List.append_assoc] at hrest
      exact hrest

/-- A new sink is empty. -/
theorem memories_openMemory {start : Journal} {sink : Sink}
    (h : journal.openMemory = (start, sink)) :
    ∃ slot, sink = .memory slot ∧ start.memories[slot]? = some [] := by
  obtain ⟨rfl, rfl⟩ := Prod.mk.inj h
  exact ⟨journal.memories.length, rfl, by simp⟩

end Journal

/-! ### Whole runs -/

/-- What the calls of a run return, if compiling succeeds. -/
structure Build where
  compiled : Compiled
  stats : List LinkStats
  frozen : Except FreezeError Graph

/-- One compilation; if it succeeds, the link calls in turn and one freeze. -/
def Compiler.build (c : Compiler) (calls : List (List Placement)) :
    StateM Journal (Except CompileError Build) := do
  match ← c.compile with
  | .error e => return .error e
  | .ok compiled => do
    let (later, stats) ← compiled.linkAll calls
    let frozen ← later.freeze
    return .ok ⟨compiled, stats, frozen⟩

/-- How many placements the nodes of a graph have. -/
def Graph.placementCount (g : Graph) : Nat :=
  (g.nodes.map fun node => node.wiring.placements.length).sum

/-- One event for each link call. -/
def linkEvents (calls : List (List Placement)) (stats : List LinkStats) : List Event :=
  List.zipWith (fun records stats => .linkApplied records.length stats) calls stats

/-- The last event of a run tells how freezing went. -/
inductive Build.EndsWith (b : Build) : Event → Prop
  | graphFrozen {g : Graph} : b.frozen = .ok g →
      g.size = b.compiled.table.size + (b.stats.map LinkStats.nodesCreated).sum →
      g.placementCount = (b.stats.map fun s => s.edgesAdded + s.nodesCreated).sum →
      EndsWith b (.graphFrozen g.size)
  | freezeFailed {e : FreezeError} : b.frozen = .error e → EndsWith b (.freezeFailed e)

/-- What a run has reported, for each way in which it may end. -/
inductive Compiler.Reports (c : Compiler) (calls : List (List Placement)) :
    Except CompileError Build → List Event → Prop
  | mergeFailed {e : MergeError} : Rulebook.ofTables c.tables = .error e →
      Reports c calls (.error (.merge e)) [.mergeFailed e]
  | validationFailed {book : Rulebook} {table : FlatTable} {report : Report} :
      Rulebook.ofTables c.tables = .ok book → book.flatten? c.maxRounds = some table →
      table.validate c.policy = .error report →
      table.size = book.size + table.stats.synthesized →
      Reports c calls (.error (.validation report))
        [.mergeCompleted c.tables.length book.size,
          .flattenCompleted table.stats table.size table.symbols.size, .validationFailed report]
  | passed {book : Rulebook} {b : Build} {last : Event} :
      Rulebook.ofTables c.tables = .ok book →
      b.compiled.table.size = book.size + b.compiled.table.stats.synthesized →
      List.Forall₂ (fun records s => records.length = s.edgesAdded + s.nodesCreated + s.unchanged)
        calls b.stats →
      b.EndsWith last →
      Reports c calls (.ok b)
        ([.mergeCompleted c.tables.length book.size,
            .flattenCompleted b.compiled.table.stats b.compiled.table.size
              b.compiled.table.symbols.size,
            .validationPassed b.compiled.table.size b.compiled.unused]
          ++ linkEvents calls b.stats ++ [last])

/-! ### Counters -/

@[simp] theorem FlatTable.length_names (table : FlatTable) : table.names.length = table.size := by
  rw [names, List.length_map, entries, List.length_map, length_defined]

theorem Rulebook.Tabulates.size_eq {book : Rulebook} {table : FlatTable}
    (h : book.Tabulates table) (hnodup : book.names.Nodup) :
    table.size = book.size + table.stats.synthesized := by
  rw [← table.length_names, (h.names_perm hnodup).length_eq, List.length_append, h.synthesized,
    names, List.length_map, size]

/-- Nothing is placed by flattening. -/
theorem Rulebook.Tabulates.edges_eq_nil {book : Rulebook} {table : FlatTable}
    (h : book.Tabulates table) : table.edges = [] := by
  rw [List.eq_nil_iff_forall_not_mem]
  rintro ⟨name, location⟩ hedge
  obtain ⟨node, hnode, hlocation⟩ := h.wellFormed.mem_edges_iff.1 hedge
  obtain ⟨f, -, -, rfl⟩ := (h.named?_eq_some_iff name node).1 hnode
  contradiction

namespace FlatTable

variable {table : FlatTable} {g : Graph}

theorem size_of_freeze (h : table.freeze = .ok g) : g.size = table.names.length := by
  rw [Graph.size, (freeze_eq_ok_iff.1 h).2.1, List.length_map, length_defined, length_names]

theorem placementCount_of_freeze (h : table.freeze = .ok g) :
    g.placementCount = table.edges.length := by
  rw [Graph.placementCount, (freeze_eq_ok_iff.1 h).2.1, edges, entries, List.length_flatMap,
    List.map_map, List.map_map]
  refine congrArg List.sum (List.map_congr_left fun entry _ => ?_)
  simp [toNamed]

end FlatTable

namespace Compiled

variable {k later : Compiled} {journal journal' : Journal} {stats : List LinkStats}

/-- The first of several link calls, and the others on what it leaves. -/
theorem exists_link_of_linkAll {records : List Placement} {calls : List (List Placement)}
    (hrun : (k.linkAll (records :: calls)).run journal = ((later, stats), journal')) :
    ∃ more, stats = (k.table.link records).2 :: more ∧
      (Compiled.linkAll { k with table := (k.table.link records).1 } calls).run
          (journal.record k.sink (.linkApplied records.length (k.table.link records).2)) =
        ((later, more), journal') := by
  obtain ⟨hresult, rfl⟩ := Prod.mk.inj hrun
  obtain ⟨rfl, rfl⟩ := Prod.mk.inj hresult
  exact ⟨_, rfl, rfl⟩

/-- Over all link calls, nodes and edges grow by what the calls have counted. -/
theorem Built.accounts_linkAll {calls : List (List Placement)} (h : k.Built)
    (hrun : (k.linkAll calls).run journal = ((later, stats), journal')) :
    List.Forall₂ (fun records s => records.length = s.edgesAdded + s.nodesCreated + s.unchanged)
        calls stats ∧
      later.table.names.length = k.table.names.length + (stats.map LinkStats.nodesCreated).sum ∧
      later.table.edges.length =
        k.table.edges.length + (stats.map fun s => s.edgesAdded + s.nodesCreated).sum := by
  induction calls generalizing k journal stats with
  | nil =>
      obtain ⟨hresult, -⟩ := Prod.mk.inj hrun
      obtain ⟨rfl, rfl⟩ := Prod.mk.inj hresult
      exact ⟨.nil, rfl, rfl⟩
  | cons records calls ih =>
      obtain ⟨more, rfl, hrest⟩ := exists_link_of_linkAll hrun
      have hnext : Built { k with table := (k.table.link records).1 } := .link journal records h
      obtain ⟨hrecords, hnames, hedges⟩ := ih hnext hrest
      obtain ⟨hnames', hedges', hrecords'⟩ := FlatTable.accounts_link h.wellFormed records
      dsimp only at hnames hedges
      refine ⟨.cons hrecords'.symm hrecords, ?_, ?_⟩
      · rw [List.map_cons, List.sum_cons]
        omega
      · rw [List.map_cons, List.sum_cons]
        omega

/-- Every link call reports once, and the sink stays what it is. -/
theorem memories_linkAll {calls : List (List Placement)} {slot : Nat} {held : List Event}
    (hsink : k.sink = .memory slot) (hheld : journal.memories[slot]? = some held)
    (hrun : (k.linkAll calls).run journal = ((later, stats), journal')) :
    later.sink = .memory slot ∧
      journal'.memories[slot]? = some (held ++ linkEvents calls stats) := by
  induction calls generalizing k journal stats held with
  | nil =>
      obtain ⟨hresult, rfl⟩ := Prod.mk.inj hrun
      obtain ⟨rfl, rfl⟩ := Prod.mk.inj hresult
      exact ⟨hsink, by rw [linkEvents, List.zipWith_nil_left, List.append_nil]; exact hheld⟩
  | cons records calls ih =>
      obtain ⟨more, rfl, hrest⟩ := exists_link_of_linkAll hrun
      have hfirst := Journal.memories_record hheld
        (.linkApplied records.length (k.table.link records).2)
      rw [← hsink] at hfirst
      obtain ⟨hlater, hmemories⟩ :=
        ih (k := { k with table := (k.table.link records).1 }) hsink hfirst hrest
      rw [List.append_assoc] at hmemories
      exact ⟨hlater, hmemories⟩

end Compiled

/-! ### Main statement -/

/-- The event of a freeze. -/
def freezeEvent : Except FreezeError Graph → Event
  | .ok g => .graphFrozen g.size
  | .error e => .freezeFailed e

@[simp] theorem Compiled.freeze_run (k : Compiled) (journal : Journal) :
    k.freeze.run journal =
      (k.table.freeze, journal.record k.sink (freezeEvent k.table.freeze)) := by
  show (k.table.freeze, journal.record k.sink _) = _
  cases k.table.freeze <;> rfl

/-- How freezing went is the last event, and its counters close the account. -/
theorem Build.endsWith_of_linkAll {k later : Compiled} {calls : List (List Placement)}
    {stats : List LinkStats} {journal journal' : Journal} (h : k.Built)
    (hflat : k.table.edges = [])
    (hrun : (k.linkAll calls).run journal = ((later, stats), journal')) :
    Build.EndsWith ⟨k, stats, later.table.freeze⟩ (freezeEvent later.table.freeze) := by
  obtain ⟨-, hnames, hedges⟩ := h.accounts_linkAll hrun
  cases hfreeze : later.table.freeze with
  | error e => exact .freezeFailed rfl
  | ok g =>
      refine .graphFrozen rfl ?_ ?_
      · rw [FlatTable.size_of_freeze hfreeze, hnames, FlatTable.length_names]
      · rw [FlatTable.placementCount_of_freeze hfreeze, hedges, hflat, List.length_nil,
          Nat.zero_add]

namespace Compiler

variable {c : Compiler} {start : Journal} {calls : List (List Placement)} {events : List Event}

theorem build_run (c : Compiler) (calls : List (List Placement)) (start : Journal) :
    (c.build calls).run start =
      match c.outcome.1 with
      | .error e => (.error e, start.recordAll c.sink c.outcome.2)
      | .ok k =>
        let linked := (k.linkAll calls).run (start.recordAll c.sink c.outcome.2)
        let frozen := linked.1.1.freeze.run linked.2
        (.ok ⟨k, linked.1.2, frozen.1⟩, frozen.2) := by
  show (StateT.run (match c.outcome.1 with
    | .error e => _
    | .ok compiled => _) (start.recordAll c.sink c.outcome.2)) = _
  cases c.outcome.1 <;> rfl

theorem build_run_of_error {e : CompileError} (h : c.outcome = (.error e, events)) :
    (c.build calls).run start = (.error e, start.recordAll c.sink events) := by
  rw [build_run, h]

theorem build_run_of_ok {k later : Compiled} {stats : List LinkStats} {journal : Journal}
    (h : c.outcome = (.ok k, events))
    (hrun : (k.linkAll calls).run (start.recordAll c.sink events) = ((later, stats), journal)) :
    (c.build calls).run start = (.ok ⟨k, stats, later.table.freeze⟩,
      journal.record later.sink (freezeEvent later.table.freeze)) := by
  rw [build_run, h]
  simp only [hrun, Compiled.freeze_run]

/-- Compiling that succeeds goes on to the links and the freeze. -/
theorem reports_of_ok {k : Compiled} {book : Rulebook} {slot : Nat}
    (hmerge : Rulebook.ofTables c.tables = .ok book) (htabulates : book.Tabulates k.table)
    (houtcome : c.outcome = (.ok k, [.mergeCompleted c.tables.length book.size,
      .flattenCompleted k.table.stats k.table.size k.table.symbols.size,
      .validationPassed k.table.size k.unused]))
    (hsink : c.sink = .memory slot) (hheld : start.memories[slot]? = some []) :
    c.Reports calls ((c.build calls).run start).1
      (((c.build calls).run start).2.events c.sink) := by
  have hcompile : (c.compile.run start).1 = .ok k := congrArg Prod.fst houtcome
  have hbuilt : k.Built := .compile start hcompile
  have hsame : k.sink = c.sink := by
    obtain ⟨_, _, -, -, -, rfl⟩ := compile_eq_ok_iff.1 hcompile
    rfl
  have hstages := Journal.memories_recordAll hheld c.outcome.2
  rw [← hsink, houtcome, List.nil_append] at hstages
  rcases hrun : (k.linkAll calls).run (start.recordAll c.sink c.outcome.2) with
    ⟨⟨later, stats⟩, journal⟩
  rw [houtcome] at hrun
  obtain ⟨hlater, hlinks⟩ := Compiled.memories_linkAll (hsame.trans hsink) hstages hrun
  have hevents := Journal.events_eq
    (Journal.memories_record hlinks (freezeEvent later.table.freeze))
  rw [build_run_of_ok houtcome hrun, hsink, hlater]
  show c.Reports calls (.ok _) (Journal.events _ _)
  rw [hevents]
  have hsize := htabulates.size_eq (Rulebook.names_nodup hmerge)
  exact .passed hmerge hsize (hbuilt.accounts_linkAll hrun).1
    (Build.endsWith_of_linkAll hbuilt htabulates.edges_eq_nil hrun)

/-- A fresh memory sink holds the events of a run, and their counters add up. -/
theorem reports_build {journal : Journal} (hopen : journal.openMemory = (start, c.sink))
    (calls : List (List Placement)) :
    c.Reports calls ((c.build calls).run start).1
      (((c.build calls).run start).2.events c.sink) := by
  obtain ⟨slot, hsink, hheld⟩ := Journal.memories_openMemory hopen
  cases hmerge : Rulebook.ofTables c.tables with
  | error e =>
      have houtcome : c.outcome = (.error (.merge e), [.mergeFailed e]) := by
        simp only [outcome, hmerge]
      rw [build_run_of_error houtcome, hsink,
        Journal.events_eq (Journal.memories_recordAll hheld _)]
      exact .mergeFailed hmerge
  | ok book =>
      have hnodup := Rulebook.names_nodup hmerge
      obtain ⟨table, hflatten, htabulates⟩ := Rulebook.exists_tabulates hnodup c.maxRounds
      cases hvalid : table.validate c.policy with
      | error report =>
          have houtcome : c.outcome = (.error (.validation report),
              [.mergeCompleted c.tables.length book.size,
                .flattenCompleted table.stats table.size table.symbols.size,
                .validationFailed report]) := by
            simp only [outcome, hmerge, hflatten, hvalid]
          rw [build_run_of_error houtcome, hsink,
            Journal.events_eq (Journal.memories_recordAll hheld _)]
          exact .validationFailed hmerge hflatten hvalid (htabulates.size_eq hnodup)
      | ok _ =>
          have houtcome : c.outcome = (.ok ⟨table, c.policy.unused table, c.sink⟩,
              [.mergeCompleted c.tables.length book.size,
                .flattenCompleted table.stats table.size table.symbols.size,
                .validationPassed table.size (c.policy.unused table)]) := by
            simp only [outcome, hmerge, hflatten, hvalid]
          exact reports_of_ok hmerge htabulates houtcome hsink hheld

end Compiler

/-- The door's compiler with a memory sink. -/
def loggedDoor : Compiler :=
  { doorCompiler with sink := .memory 0 }

/-- The key is put into the slot and then, once more, together with a new coin. -/
def doorCalls : List (List Placement) :=
  [[⟨"s", "k"⟩], [⟨"k", "c"⟩, ⟨"s", "k"⟩]]

theorem reports_build_door :
    Journal.openMemory {} = ({ memories := [[]] }, loggedDoor.sink) ∧
      loggedDoor.Reports doorCalls ((loggedDoor.build doorCalls).run { memories := [[]] }).1
        (((loggedDoor.build doorCalls).run { memories := [[]] }).2.events loggedDoor.sink) ∧
      (((loggedDoor.build doorCalls).run { memories := [[]] }).2.events loggedDoor.sink).map
          Event.counts =
        [[("nodes", 4), ("tables", 1)],
          [("nodes", 4), ("rounds", 0), ("symbols", 4), ("synthesized", 0)],
          [("nodes", 4), ("unused_exemptions", 0)],
          [("edges_added", 1), ("nodes_created", 0), ("records", 1), ("unchanged", 0)],
          [("edges_added", 0), ("nodes_created", 1), ("records", 2), ("unchanged", 1)],
          [("nodes", 5)]] := by
  have hopen : Journal.openMemory {} = ({ memories := [[]] }, loggedDoor.sink) := rfl
  exact ⟨hopen, Compiler.reports_build hopen doorCalls, by cbv⟩

end Progression

import Progression.Flatten
import Progression.Journal

/-!
The compiler: tables are merged, flattened and validated, in this order. What comes out is
linked with placements and frozen into a graph. Every stage reports to the sink that the
compiler had when it was run.
-/

namespace Progression

structure Compiler where
  tables : List Table := []
  policy : Policy := {}
  maxRounds : Nat := 64
  sink : Sink := .silent

inductive CompileError
  | merge (e : MergeError)
  /-- Flattening did not end in as many rounds as the nesting is deep. -/
  | unsettled (cap : Nat)
  | validation (report : Report)
  deriving Repr, DecidableEq

def CompileError.message : CompileError → String
  | .merge e => e.message
  | .unsettled cap =>
    "flattening exceeded " ++ toString cap ++ " rounds; inline expressions failed to converge"
  | .validation report => report.message

/-- A validated table, with the exemptions that were of no use to it. -/
structure Compiled where
  table : FlatTable
  unused : List Exemption
  sink : Sink

namespace Compiler

/-- The result of a compilation and the events of its stages. -/
def outcome (c : Compiler) : Except CompileError Compiled × List Event :=
  match Rulebook.ofTables c.tables with
  | .error e => (.error (.merge e), [.mergeFailed e])
  | .ok book =>
    let merged := Event.mergeCompleted c.tables.length book.size
    match book.flatten? c.maxRounds with
    | none => (.error (.unsettled c.maxRounds), [merged])
    | some table =>
      let flattened := Event.flattenCompleted table.stats table.size table.symbols.size
      match table.validate c.policy with
      | .error report =>
        (.error (.validation report), [merged, flattened, .validationFailed report])
      | .ok () =>
        let unused := c.policy.unused table
        (.ok ⟨table, unused, c.sink⟩,
          [merged, flattened, .validationPassed table.size unused])

def compile (c : Compiler) : StateM Journal (Except CompileError Compiled) := do
  let (result, events) := c.outcome
  modify (·.recordAll c.sink events)
  return result

end Compiler

namespace Compiled

def toExport (c : Compiled) : Export :=
  c.table.toExport

def extraItems (c : Compiled) : Export :=
  c.table.extraItems

/-- Applies placements and says what changed. -/
def link (c : Compiled) (records : List Placement) : StateM Journal (Compiled × LinkStats) := do
  let (table, stats) := c.table.link records
  modify (·.record c.sink (.linkApplied records.length stats))
  return ({ c with table }, stats)

def freeze (c : Compiled) : StateM Journal (Except FreezeError Graph) := do
  let result := c.table.freeze
  modify (·.record c.sink (match result with
    | .ok graph => .graphFrozen graph.size
    | .error e => .freezeFailed e))
  return result

end Compiled

end Progression

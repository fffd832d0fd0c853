import Progression.Rulebook
import Progression.Validation
import Progression.Placement
import Progression.Graph

/-!
Events: what a compiler reports about each stage of its work, and the one-line form in
which reports are written to a log.
-/

namespace Progression

inductive Stage
  | merge | flatten | validate | link | freeze
  deriving Repr, DecidableEq

def Stage.label : Stage → String
  | .merge => "merge"
  | .flatten => "flatten"
  | .validate => "validate"
  | .link => "link"
  | .freeze => "freeze"

inductive Event
  | mergeFailed (e : MergeError)
  | mergeCompleted (tables nodes : Nat)
  | flattenCompleted (stats : FlattenStats) (nodes symbols : Nat)
  | validationFailed (report : Report)
  | validationPassed (nodes : Nat) (unused : List Exemption)
  | linkApplied (records : Nat) (stats : LinkStats)
  | graphFrozen (nodes : Nat)
  | freezeFailed (e : FreezeError)

namespace Event

def label : Event → String
  | .mergeFailed _ => "merge_failed"
  | .mergeCompleted .. => "merge_completed"
  | .flattenCompleted .. => "flatten_completed"
  | .validationFailed _ => "validation_failed"
  | .validationPassed .. => "validation_passed"
  | .linkApplied .. => "link_applied"
  | .graphFrozen _ => "graph_frozen"
  | .freezeFailed _ => "freeze_failed"

def stage : Event → Stage
  | .mergeFailed _ | .mergeCompleted .. => .merge
  | .flattenCompleted .. => .flatten
  | .validationFailed _ | .validationPassed .. => .validate
  | .linkApplied .. => .link
  | .graphFrozen _ | .freezeFailed _ => .freeze

/-- Counters, in the order of their names. -/
def counts : Event → List (String × Nat)
  | .mergeFailed _ => []
  | .mergeCompleted tables nodes => [("nodes", nodes), ("tables", tables)]
  | .flattenCompleted stats nodes symbols =>
    [("nodes", nodes), ("rounds", stats.rounds), ("symbols", symbols),
      ("synthesized", stats.synthesized)]
  | .validationFailed report => [("issues", report.size)]
  | .validationPassed nodes unused => [("nodes", nodes), ("unused_exemptions", unused.length)]
  | .linkApplied records stats =>
    [("edges_added", stats.edgesAdded), ("nodes_created", stats.nodesCreated),
      ("records", records), ("unchanged", stats.unchanged)]
  | .graphFrozen nodes => [("nodes", nodes)]
  | .freezeFailed e => [("unresolved", e.references.length)]

def issues : Event → List String
  | .validationFailed report => report.issues.map Issue.display
  | .validationPassed _ unused => unused.map fun rule => "unused exemption " ++ rule.display
  | .freezeFailed e => e.references.map UnresolvedReference.display
  | _ => []

def error? : Event → Option String
  | .mergeFailed e => some e.message
  | .freezeFailed e => some e.message
  | _ => none

/-- Counters, issues and errors are left out when there are none. -/
def toJson (event : Event) : Json :=
  .object <|
    [("event", .string event.label), ("stage", .string event.stage.label)]
      ++ (if event.counts.isEmpty then []
        else [("counts", .object (event.counts.map fun (name, n) => (name, .nat n)))])
      ++ (if event.issues.isEmpty then [] else [("issues", .strings event.issues)])
      ++ (match event.error? with
        | some e => [("error", .string e)]
        | none => [])

def line (event : Event) : String :=
  event.toJson.compact

end Event

end Progression

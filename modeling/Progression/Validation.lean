import Std.Data.TreeSet
import Progression.Exemption

/-!
Checks on a flat table. A node that is no root needs parents, and a node that is no slot
has to be of use to some node, unless the policy exempts it. All faults are found at once.
-/

namespace Progression

inductive IssueKind
  | missingParents | deadEnd
  deriving Repr, DecidableEq

structure Issue where
  node : String
  kind : IssueKind
  source : String
  deriving Repr, DecidableEq

def IssueKind.describe : IssueKind → String
  | .missingParents => "non-root node has no parents"
  | .deadEnd => "non-slot node is never referenced as a parent"

def IssueKind.rank : IssueKind → Nat
  | .missingParents => 0
  | .deadEnd => 1

namespace Issue

def display (issue : Issue) : String :=
  "node `" ++ issue.node ++ "` (" ++ issue.source ++ "): " ++ issue.kind.describe

/-- By node, then by kind, then by source. -/
def le (a b : Issue) : Bool :=
  if a.node = b.node then
    if a.kind = b.kind then decide (a.source ≤ b.source) else decide (a.kind.rank ≤ b.kind.rank)
  else decide (a.node ≤ b.node)

end Issue

/-- The faults of a table, in order. -/
structure Report where
  issues : List Issue
  deriving Repr, DecidableEq

namespace Report

def size (report : Report) : Nat :=
  report.issues.length

def isEmpty (report : Report) : Bool :=
  report.issues.isEmpty

def has (report : Report) (node : String) (kind : IssueKind) : Bool :=
  report.issues.any fun issue => issue.node == node && issue.kind == kind

def nodesWith (report : Report) (kind : IssueKind) : List String :=
  (report.issues.filter (·.kind == kind)).map Issue.node

def message (report : Report) : String :=
  toString report.size ++ " validation issue(s)"
    ++ String.join (report.issues.map fun issue => "\n  - " ++ issue.display)

end Report

namespace FlatTable

/-- The symbols that some node names as a parent. -/
def referenced (table : FlatTable) : Std.TreeSet Symbol :=
  .ofList (table.defined.flatMap fun (_, node) => node.parents)

/-- The faults of a node, where `isReferenced` says whether some node names it. -/
def issuesOf (table : FlatTable) (policy : Policy) (isReferenced : Bool) (s : Symbol)
    (node : FlatNode) : List Issue :=
  let name := table.name s
  (if !node.kind.isRoot && node.parents.isEmpty then [⟨name, .missingParents, node.source⟩]
    else [])
  ++ (if !node.kind.isSlot && !isReferenced && !policy.isExempt name then
      [⟨name, .deadEnd, node.source⟩]
    else [])

def issues (table : FlatTable) (policy : Policy) : List Issue :=
  let referenced := table.referenced
  let found := table.defined.flatMap fun (s, node) =>
    table.issuesOf policy (referenced.contains s) s node
  found.mergeSort Issue.le

def validate (table : FlatTable) (policy : Policy) : Except Report Unit :=
  let issues := table.issues policy
  if issues.isEmpty then .ok () else .error ⟨issues⟩

end FlatTable

end Progression

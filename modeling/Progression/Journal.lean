import Progression.Event
import Progression.Directory

/-!
Where events go. A compiler holds a sink; the journal holds what every sink has received.
-/

namespace Progression

inductive Sink
  | silent
  | stderr
  /-- Lines at the end of an open file. -/
  | file (place : List String)
  /-- Kept as they are, apart from those of other sinks of this kind. -/
  | memory (slot : Nat)
  deriving Repr, DecidableEq

structure Journal where
  directory : Directory := {}
  /-- Lines of the error stream, oldest first. -/
  stderr : List String := []
  /-- The events of each memory sink, oldest first. -/
  memories : List (List Event) := []

namespace Journal

def record (journal : Journal) (sink : Sink) (event : Event) : Journal :=
  match sink with
  | .silent => journal
  | .stderr => { journal with stderr := journal.stderr ++ [event.line] }
  | .file place =>
    { journal with directory := journal.directory.append place (event.line ++ "\n") }
  | .memory slot => { journal with memories := journal.memories.modify slot (· ++ [event]) }

def recordAll (journal : Journal) (sink : Sink) (events : List Event) : Journal :=
  events.foldl (·.record sink ·) journal

/-- A new memory sink, with no events. -/
def openMemory (journal : Journal) : Journal × Sink :=
  ({ journal with memories := journal.memories ++ [[]] }, .memory journal.memories.length)

/-- A sink at the end of a file, if the file can be opened. -/
def openFile? (journal : Journal) (path : String) : Option (Journal × Sink) :=
  (journal.directory.openFile? path).map fun (place, directory) =>
    ({ journal with directory }, .file place)

def events (journal : Journal) : Sink → List Event
  | .memory slot => journal.memories.getD slot []
  | _ => []

end Journal

end Progression

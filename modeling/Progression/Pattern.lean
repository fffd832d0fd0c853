import Progression.Pattern.Places
import Progression.Pattern.Reader

/-!
Patterns: regular expressions that are looked for anywhere in a name.
-/

namespace Progression

structure Pattern where
  /-- As it was written. -/
  source : String
  /-- Whether the pattern is found in a text. -/
  isMatch : String → Bool

/-- A pattern that is well formed and not too large. -/
def Pattern.compile? (source : String) : Option Pattern :=
  (tree? source).map fun tree => ⟨source, fun text => tree.occursIn text.toList⟩

end Progression

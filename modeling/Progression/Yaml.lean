import Progression.Yaml.Value

/-!
Reading a YAML text that holds one mapping.
-/

namespace Progression.Yaml

/-- The members of the mapping in their order, with repeated keys. -/
def members? (text : String) : Option (List (String × Json)) :=
  ((Token.scan? text).bind Node.ofTokens?).bind Node.members?

end Progression.Yaml

/-!
# StageVars.Yaml.Token -- the tokens of YAML

Indentation has become start and end tokens, and every scalar carries its text with
folding and escapes undone. A tag keeps its handle apart from the rest, whose octets
may have been written by percent signs.
-/

namespace StageVars

namespace Yaml

/-- Octets of a tag. -/
abbrev Octets := List UInt8

/-- A token. -/
inductive Token where
  | versionDirective (major minor : Nat)
  | tagDirective (handle : String) (expansion : Octets)
  | documentStart
  | documentEnd
  | blockSequenceStart
  | blockMappingStart
  | blockEnd
  | flowSequenceStart
  | flowSequenceEnd
  | flowMappingStart
  | flowMappingEnd
  | blockEntry
  | flowEntry
  | key
  | value
  | alias (name : String)
  | anchor (name : String)
  | tag (handle : String) (suffix : Octets)
  | scalar (isPlain : Bool) (text : String)
deriving DecidableEq, Repr, Inhabited

end Yaml

end StageVars

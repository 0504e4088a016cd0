import StageVars.Merge
/-!
# StageVars.Change -- what becomes of a section

Two sections of a service document are composed from files: the custom values and the
environment. Composing a section either keeps it, because no file applies, or replaces
it by a merged value. Keeping is not the same as replacing by an equal value: a kept
section is never written, and one that is not there stays away.
-/

namespace StageVars

/-- A part of a service document that is composed from files. -/
inductive Section where
  | custom
  | environment
deriving DecidableEq, Repr

namespace Section

/-- The name of a section's own files. -/
def stem : Section → String
  | .custom => "variables"
  | .environment => "environment"

/-- How the sources of a section are merged. -/
def strategy : Section → Merge.Strategy
  | .custom => .deep
  | .environment => .shallow

end Section

/-- What becomes of a value. -/
inductive Change where
  /-- No file applies. -/
  | kept
  | replaced (value : Value)
deriving DecidableEq, Repr

namespace Change

/-- Whether no file applies. -/
def isKept : Change → Bool
  | .kept => true
  | .replaced _ => false

/-- The value after a change of the one before. -/
def after (change : Change) (before : Option Value) : Option Value :=
  match change with
  | .kept => before
  | .replaced value => some value

end Change

/-- What becomes of both sections. -/
structure Changes where
  custom : Change
  environment : Change
deriving DecidableEq, Repr

/-- What becomes of a section. -/
def Changes.get (c : Changes) : Section → Change
  | .custom => c.custom
  | .environment => c.environment

end StageVars

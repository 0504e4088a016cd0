import StageVars.Change
import StageVars.Reference
/-!
# StageVars.Compose -- composing a section from its files

A section is composed from up to three sources, later ones winning: what the document
says itself, a base file and the file of a stage. A reference names its base file, and
the stage's file lies beside it; an object, an array or nothing is combined with the
files of the section's own name. Any other value is kept, as is one that no file
applies to.
-/

namespace StageVars

/-- A lookup that may fail. -/
abbrev Composing (α : Type) := ExceptT Failure Lookup α

namespace Compose

/-- What a path holds; without a path, nothing. -/
def source (path : Option String) : Composing (Option Value) :=
  match path with
  | none => return none
  | some path => ExceptT.mk (Lookup.contentOf path)

/-- Merge what stands in the document with a base file and a stage's file. -/
def combine (strategy : Merge.Strategy) (inline : Option Value) (base stage : Option String) :
    Composing Value := do
  let base ← source base
  let stage ← source stage
  return strategy.merge [inline, base, stage]

/-- What becomes of a string: a reference is replaced by its files. -/
def referenced (text stage : String) (strategy : Merge.Strategy) : Composing Change :=
  match Reference.parse? text with
  | none => return .kept
  | some r => return .replaced (← combine strategy none (some r.path) (some (r.sibling stage)))

/-- What a value adds to the files of a stem: an object or an array itself, any other
value nothing. -/
def contribution : Option Value → Value
  | some (.object fields) => .object fields
  | some (.array items) => .array items
  | _ => .empty

/-- What becomes of a value by the files of a stem, if there are any. -/
def withFiles (literal : Option Value) (stem stage : String) (strategy : Merge.Strategy) :
    Composing Change := do
  let base ← Lookup.locate (some ("./" ++ stem))
  let staged ← Lookup.locate (some ("./" ++ stem ++ "." ++ stage))
  if base.isNone && staged.isNone then return .kept
  return .replaced (← combine strategy (some (contribution literal)) base staged)

/-- What becomes of a value for a stage. -/
def value (literal : Option Value) (stem stage : String) (strategy : Merge.Strategy) :
    Composing Change :=
  match literal with
  | some (.string text) => referenced text stage strategy
  | some (.bool _) | some (.number _) => return .kept
  | none | some .null | some (.object _) | some (.array _) =>
    withFiles literal stem stage strategy

end Compose

/-- What becomes of a section for a stage. -/
def Section.compose (s : Section) (literal : Option Value) (stage : String) : Composing Change :=
  Compose.value literal s.stem stage s.strategy

end StageVars

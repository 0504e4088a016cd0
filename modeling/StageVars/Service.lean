import StageVars.Compose
/-!
# StageVars.Service -- the service document

A document is any tree. What matters of it are the values at `custom` and
`provider.environment`, the stage at `provider.stage`, and the list of plugins.
Writing a section replaces what stands in its way by an object and touches nothing
else.
-/

namespace StageVars

/-- A service with its document. -/
structure Service where
  document : Value
deriving DecidableEq, Repr

namespace Service

/-- The stage of a service that names none. -/
def fallbackStage : String := "dev"

/-- The stem of service documents. -/
def documentStem : String := "./serverless"

/-- What is said about a document that is no object. -/
def notAMapping : String := "Service document must be a mapping"

/-- What is said about a document that is not there. -/
def notFound : String := "Service document not found or has an unsupported extension"

/-! ## Loading -/

/-- The service that a path holds. -/
def load (path : String) : Composing Service := do
  match ← ExceptT.mk (Lookup.contentOf path) with
  | some (.object fields) => return ⟨.object fields⟩
  | some _ => throw (.unusableDocument path notAMapping)
  | none => throw (.unusableDocument path notFound)

/-- The service of the first service document that is there. -/
def discover (shownRoot : String) : Composing Service := do
  match ← Lookup.locate (some documentStem) with
  | some path => load path
  | none => throw (.noDocument shownRoot)

/-! ## Reading -/

/-- The value at `custom`. -/
def custom (s : Service) : Option Value := s.document.get? "custom"

/-- The value at a key of the provider. -/
def provider? (s : Service) (key : String) : Option Value :=
  (s.document.get? "provider").bind (·.get? key)

/-- The value at `provider.environment`. -/
def environment (s : Service) : Option Value := s.provider? "environment"

/-- The value of a section. -/
def get? (s : Service) : Section → Option Value
  | .custom => s.custom
  | .environment => s.environment

/-- The stage that the provider names. -/
def declaredStage (s : Service) : Option String := (s.provider? "stage").bind Value.asString?

/-- The stage to compose for: the one asked for unless it is empty, or the declared
one, or the fallback. -/
def stageFor (s : Service) (asked : Option String) : String :=
  ((asked.filter (!·.isEmpty)) <|> s.declaredStage).getD fallbackStage

/-- The plugins, given as a list or as the modules of an object. -/
def plugins (s : Service) : List Value :=
  let listed := match s.document.get? "plugins" with
    | some (.object fields) => Fields.get? fields "modules"
    | other => other
  match listed with
  | some (.array items) => items
  | _ => []

/-! ## Writing -/

/-- The service with another value at `custom`. -/
def withCustom (s : Service) (value : Value) : Service :=
  ⟨.object (Fields.insert s.document.entries "custom" value)⟩

/-- The service with another value at `provider.environment`. -/
def withEnvironment (s : Service) (value : Value) : Service :=
  let root := s.document.entries
  let provider := ((Fields.get? root "provider").getD .empty).entries
  ⟨.object (Fields.insert root "provider" (.object (Fields.insert provider "environment" value)))⟩

/-- The service with another value of a section. -/
def withSection (s : Service) : Section → Value → Service
  | .custom, value => s.withCustom value
  | .environment, value => s.withEnvironment value

/-- The service after a change of a section; what is kept is not written. -/
def change (s : Service) (sec : Section) : Change → Service
  | .kept => s
  | .replaced value => s.withSection sec value

/-- The service after changes of both sections. -/
def apply (s : Service) (c : Changes) : Service :=
  (s.change .custom c.custom).change .environment c.environment

/-! ## Composing -/

/-- Compose both sections for a stage, the custom one first. -/
def compose (s : Service) (stage : String) : Composing Changes := do
  let custom ← Section.custom.compose s.custom stage
  let environment ← Section.environment.compose s.environment stage
  return ⟨custom, environment⟩

end Service

end StageVars

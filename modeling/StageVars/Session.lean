import StageVars.Logger
import StageVars.Output
import StageVars.Service
/-!
# StageVars.Session -- composing a service once

A session starts by looking at the order of the plugins, then chooses a stage, composes
both sections, writes them to the service and keeps the values that it wrote. The
service may change afterwards; then those values and the service differ. A session
that fails to start leaves the service as it was.
-/

namespace StageVars

namespace Plugin

/-- The name of this plugin in a service document, under which it also logs. -/
def name : String := "serverless-plugin-composed-vars"

/-- The logger of this plugin. -/
def logger : Logger := ⟨name⟩

/-- The place of this plugin among all plugins. -/
def position? (plugins : List Value) : Option Nat :=
  plugins.findIdx? fun p => p.asString? == some name

/-- What is said about this plugin at a place that is not the first. -/
def misplaced (position : String) : String :=
  "To ensure " ++ name ++
    " functions properly, it should be the first plugin. Found it at index: " ++ position

/-- The warning when this plugin is not the first. -/
def orderWarning (plugins : List Value) : Option String :=
  match position? plugins with
  | some 0 => none
  | some position => some (misplaced (Nat.repr position))
  | none => some (misplaced "-1")

end Plugin

/-- The values of a service's sections. -/
def Variables.ofService (s : Service) : Variables := ⟨s.custom, s.environment⟩

/-- A session that has started. -/
structure Session where
  stage : String
  merged : Variables
deriving DecidableEq, Repr

/-- What starting a session came to. -/
structure Start where
  /-- The service afterwards. -/
  service : Service
  /-- The lines for the operator. -/
  log : List String
  outcome : Except Failure Session

namespace Session

/-- The lines that a start logs: at most the warning about the plugins. -/
def startLog (s : Service) : List String :=
  match Plugin.orderWarning s.plugins with
  | some warning => [Plugin.logger.line (Logger.warning warning)]
  | none => []

/-- Start a session for the stage asked for. -/
def start (s : Service) (asked : Option String) : Lookup Start := do
  let stage := s.stageFor asked
  match ← (s.compose stage).run with
  | .error e => return ⟨s, startLog s, .error e⟩
  | .ok changes =>
    let service := s.apply changes
    return ⟨service, startLog s, .ok ⟨stage, Variables.ofService service⟩⟩

/-- The report of what the session wrote. -/
def report (session : Session) : String := session.merged.report

/-- The report of a service as it is. -/
def liveReport (s : Service) : String := (Variables.ofService s).report

/-- The line that shows a report to the operator. -/
def reportLine (report : String) : String := Plugin.logger.line ("\n" ++ report)

end Session

end StageVars

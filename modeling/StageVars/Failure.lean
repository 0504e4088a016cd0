import StageVars.Json.Text
/-!
# StageVars.Failure -- why a composition fails

Every failure is a cause with what it concerns. A cause has a code, a message, maybe
a path and maybe details; its display is the message, with the details behind it.
-/

namespace StageVars

/-- The causes of failure. -/
inductive Failure where
  /-- A file is there but its text cannot be had. -/
  | unreadable (path details : String)
  | malformedYaml (path details : String)
  | malformedJson (path details : String)
  /-- A module source was met while modules are not allowed. -/
  | moduleRefused (path : String)
  | moduleBroken (path reason : String)
  /-- A directory holds no service document under any of its names. -/
  | noDocument (directory : String)
  | unusableDocument (path reason : String)
  | unexpected (details : String)
deriving DecidableEq, Repr, Inhabited

namespace Failure

/-- The code of a cause. -/
def code : Failure → String
  | .unreadable .. => "FILE_READ"
  | .malformedYaml .. => "INVALID_YAML"
  | .malformedJson .. => "INVALID_JSON"
  | .moduleRefused .. => "MODULE_DISABLED"
  | .moduleBroken .. => "MODULE_FAILED"
  | .noDocument .. => "SERVICE_FILE_NOT_FOUND"
  | .unusableDocument .. => "INVALID_SERVICE_FILE"
  | .unexpected .. => "INTERNAL"

/-- The message of a cause. -/
def message : Failure → String
  | .unreadable path _ => "Failed to read " ++ path
  | .malformedYaml path _ => "Invalid YAML in " ++ path
  | .malformedJson path _ => "Invalid JSON in " ++ path
  | .moduleRefused path =>
    "Refusing to load module source " ++ path ++ " (pass --allow-modules to enable)"
  | .moduleBroken path _ => "Failed to evaluate module " ++ path
  | .noDocument directory =>
    "No serverless.yml, serverless.yaml, serverless.json or serverless.js in " ++ directory
  | .unusableDocument _ reason => reason
  | .unexpected details => details

/-- The file or directory that a cause concerns. -/
def path? : Failure → Option String
  | .unreadable path _ | .malformedYaml path _ | .malformedJson path _ | .moduleRefused path
  | .moduleBroken path _ | .noDocument path | .unusableDocument path _ => some path
  | .unexpected _ => none

/-- What the source of a failure said about it. -/
def details? : Failure → Option String
  | .unreadable _ details | .malformedYaml _ details | .malformedJson _ details
  | .moduleBroken _ details => some details
  | _ => none

/-- One line about a failure. -/
def display (e : Failure) : String :=
  match e.details? with
  | some details => e.message ++ ": " ++ details
  | none => e.message

/-- A failure as an object; what is not there is left out. -/
def toValue (e : Failure) : Value :=
  let optional (key : String) (s : Option String) : Fields := match s with
    | some s => [(key, .string s)]
    | none => []
  .object ([("code", .string e.code), ("message", .string e.message)]
    ++ optional "path" e.path? ++ optional "details" e.details?)

end Failure

end StageVars

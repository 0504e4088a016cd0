import StageVars.Json.Text
import StageVars.Yaml.Text
/-!
# StageVars.Output -- showing values

Values are shown as pretty JSON or as YAML. A view of the composed variables is an
object with the sections that are there.
-/

namespace StageVars

/-- The formats of output. -/
inductive TextFormat where
  | json
  | yaml
deriving DecidableEq, Repr, Inhabited

namespace TextFormat

/-- A text in lower case. Only ASCII letters count, as no other character becomes one
of the letters of a format's name. -/
def lowered (s : String) : String := String.ofList (s.toList.map Char.toLower)

/-- The format with a name, in any case of letters. -/
def ofName? (s : String) : Option TextFormat :=
  match lowered s with
  | "json" => some .json
  | "yaml" => some .yaml
  | "yml" => some .yaml
  | _ => none

/-- What is said about a name that no format has. -/
def unknown (s : String) : String := "Invalid format '" ++ s ++ "'. Valid options: json, yaml"

end TextFormat

/-- A value in a format. JSON has no line end behind it, YAML has. -/
def render (value : Value) : TextFormat → String
  | .json => Json.pretty value
  | .yaml => Yaml.text value

/-- The values of both sections at some time. -/
structure Variables where
  custom : Option Value
  environment : Option Value
deriving DecidableEq, Repr

namespace Variables

/-- The values as an object; a section that is not there is left out. -/
def toValue (s : Variables) : Value :=
  let optional (key : String) (v : Option Value) : Fields := match v with
    | some v => [(key, v)]
    | none => []
  .object (optional "custom" s.custom ++ optional "environment" s.environment)

/-- The values for the operator. -/
def report (s : Variables) : String := render s.toValue .json

end Variables

end StageVars

import StageVars.Lookup
/-!
# StageVars.Files.Extension -- the kinds of variable files

A file's extension says how it is read. Where a stem is given without extension, the
extensions are tried in a fixed order and the first file that is there is taken.
-/

namespace StageVars

/-- The extensions of variable files. -/
inductive Extension where
  | yml
  | yaml
  | json
  | js
deriving DecidableEq, Repr, Inhabited

namespace Extension

/-- All extensions in the order in which they are tried. -/
def all : List Extension := [.yml, .yaml, .json, .js]

/-- An extension as it stands in a file name. -/
def name : Extension → String
  | .yml => "yml"
  | .yaml => "yaml"
  | .json => "json"
  | .js => "js"

/-- The extension with a name. -/
def ofName? (s : String) : Option Extension := all.find? fun e => e.name == s

/-- What is said about a name that no extension has. -/
def unsupported (s : String) : String :=
  "Unsupported extension '" ++ s ++ "'. Valid options: yml, yaml, json, js"

/-- What stands behind the last point of a path. -/
def suffix? (path : String) : Option String :=
  let reversed := path.toList.reverse
  match reversed.dropWhile (· != '.') with
  | [] => none
  | _ => some (String.ofList (reversed.takeWhile (· != '.')).reverse)

/-- The extension of a path. -/
def ofPath? (path : String) : Option Extension := (suffix? path).bind ofName?

theorem ofName?_name (e : Extension) : ofName? e.name = some e := by
  cases e <;> rfl

end Extension

namespace Lookup

/-- The first of some extensions under which a stem is there. -/
def locateFrom (stem : String) : List Extension → Lookup (Option String)
  | [] => return none
  | e :: rest => do
    let path := stem ++ "." ++ e.name
    if ← isPresent path then return some path
    else locateFrom stem rest

/-- The first file that is there under a stem. Without a stem nothing is asked. -/
def locate (stem : Option String) : Lookup (Option String) :=
  match stem with
  | none => return none
  | some stem => if stem.isEmpty then return none else locateFrom stem Extension.all

end Lookup

end StageVars

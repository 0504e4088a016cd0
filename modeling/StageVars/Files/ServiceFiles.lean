import StageVars.Files.Directory
import StageVars.Files.Extension
import StageVars.Json.Decode
import StageVars.Text.Blank
import StageVars.Yaml.Document
/-!
# StageVars.Files.ServiceFiles -- variable files of a service

A service's files lie in a directory, and paths are relative to the service's root in
it. A file that is not there, or whose extension is not known, reads as nothing; a
file that is there and cannot be read or decoded is a failure. Module sources are
refused unless they are allowed. Then they are run, and read as the value that they
print; their text is never looked at here.
-/

namespace StageVars

/-- Why the text of a file cannot be had. -/
inductive TextFault where
  | isDirectory
  | notText
  | missing
deriving DecidableEq, Repr

/-- The system's words for a fault. -/
def TextFault.message : TextFault → String
  | .isDirectory => PathFault.isDirectory.message
  | .notText => "stream did not contain valid UTF-8"
  | .missing => PathFault.missing.message

/-- What stands for the decoders' own words about a text that does not follow its format,
which are left out. -/
def malformed : String := "not a well-formed document"

/-- What running a module source comes to: why it fails, or what it prints, which is `none`
if that is no text. -/
abbrev Evaluation := Except String (Option String)

/-- The value that a module source exports. It is printed as JSON. -/
def decodeModule (path : String) : Evaluation → Except Failure Value
  | .error reason => throw (.moduleBroken path reason)
  | .ok printed =>
    match printed.bind Json.decode? with
    | some v => return v
    | none => throw (.malformedJson path malformed)

/-- The value of a file with an extension; a blank YAML text is null. Only what the extension
needs is asked for: the text, or what running the file comes to, where that is allowed. -/
def decodeFile (path : String) (e : Extension) (text : Unit → Except TextFault String)
    (evaluation : Option (Unit → Evaluation)) : Except Failure Value :=
  let read : Except Failure String :=
    (text ()).mapError fun fault => .unreadable path fault.message
  match e with
  | .yml | .yaml => do
    let text ← read
    if isBlankText text then return .null
    match Yaml.decode? text with
    | some v => return v
    | none => throw (.malformedYaml path malformed)
  | .json => do
    match Json.decode? (← read) with
    | some v => return v
    | none => throw (.malformedJson path malformed)
  | .js =>
    match evaluation with
    | some evaluation => decodeModule path (evaluation ())
    | none => throw (.moduleRefused path)

/-- The files of a service. -/
structure ServiceFiles where
  directory : Directory
  /-- The path of the service's root in the directory. -/
  root : String
  /-- What running module sources comes to, by their paths, if they are allowed. -/
  modules : Option (String → Evaluation)

namespace ServiceFiles

/-- The files of a service whose root is the working directory, without module sources. -/
def ofDirectory (directory : Directory) : ServiceFiles := ⟨directory, ".", none⟩

/-- Whether a path is there; the empty path never is. -/
def present (dir : ServiceFiles) (path : String) : Bool :=
  !path.isEmpty && dir.directory.contains (Path.join dir.root path)

/-- The text of a file. -/
def text (dir : ServiceFiles) (path : String) : Except TextFault String :=
  match dir.directory.lookup? (Path.join dir.root path) with
  | some (.file (some text)) => .ok text
  | some (.file none) => .error .notText
  | some .directory => .error .isDirectory
  | none => .error .missing

/-- What running a module source comes to, if that is allowed. -/
def evaluation (dir : ServiceFiles) (path : String) : Option (Unit → Evaluation) :=
  dir.modules.map fun run _ => run (Path.join dir.root path)

/-- The value of a path that is there, by its extension. -/
def decoded (dir : ServiceFiles) (path : String) (e : Extension) : Except Failure Value :=
  decodeFile path e (fun _ => dir.text path) (dir.evaluation path)

/-- What a path holds. -/
def content (dir : ServiceFiles) (path : String) : ReadResult :=
  if !dir.present path then .ok none
  else match Extension.ofPath? path with
    | none => .ok none
    | some e => (dir.decoded path e).map some

/-- The answers of a service's files. -/
def view (dir : ServiceFiles) : FileView := ⟨dir.present, dir.content⟩

end ServiceFiles

end StageVars

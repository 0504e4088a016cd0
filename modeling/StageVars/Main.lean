import StageVars.Program
/-!
# StageVars.Main -- the command line

The outer layer: it answers the questions of a run from the files of the machine and
writes what the run says. No diagnostics are written. Nothing is started from here either:
what module sources come to is asked of an evaluator, and the one at hand answers as a
machine does that has no `node`.
-/

namespace StageVars

namespace Main

open CommandLine

/-- Whether a file or directory can be opened. -/
def isPresent (path : String) : IO Bool := do
  match ← (IO.FS.Handle.mk path .read).toBaseIO with
  | .ok _ => return true
  | .error _ => return false

/-- The text of a file. -/
def textOf (path : String) : IO (Except TextFault String) := do
  match ← (IO.FS.readBinFile path).toBaseIO with
  | .error _ => return .error .isDirectory
  | .ok bytes =>
    match String.fromUTF8? bytes with
    | some text => return .ok text
    | none => return .error .notText

/-- An evaluator of module sources. -/
abbrev Evaluator := String → IO Evaluation

/-- The evaluator where `node` cannot be found. -/
def withoutNode : Evaluator := fun _ => return .error PathFault.missing.message

/-- What a path holds; module sources are run by the evaluator, if they are allowed. -/
def contentOf (root : String) (modules : Option Evaluator) (path : String) : IO ReadResult := do
  let full := Path.join root path
  if path.isEmpty || !(← isPresent full) then return .ok none
  match Extension.ofPath? path with
  | none => return .ok none
  | some .js =>
    let evaluation ← modules.mapM fun evaluate => evaluate full
    return (decodeFile path .js (fun _ => .error .missing)
      (evaluation.map fun result _ => result)).map some
  | some e =>
    let text ← textOf full
    return (decodeFile path e (fun _ => text) none).map some

/-- Answer a lookup from the files of the machine. -/
def answer {α : Type} (root : String) (modules : Option Evaluator) : Lookup α → IO α
  | .done a => return a
  | .probe path next => do
    let found ← if path.isEmpty then pure false else isPresent (Path.join root path)
    answer root modules (next found)
  | .read path next => do
    answer root modules (next (← contentOf root modules path))

/-- Show why a run failed. -/
def showCauses (causes : Program.Causes) : IO Unit := do
  match causes with
  | [] => return
  | first :: rest =>
    IO.eprintln ("Error: " ++ first)
    if !rest.isEmpty then
      IO.eprintln "\nCaused by:"
      for cause in rest do IO.eprintln ("    " ++ cause)

/-- Carry out an invocation; whether it succeeded. -/
def perform (evaluate : Evaluator) (inv : Invocation) : IO Bool := do
  if let .file path := inv.log then
    if let .error e ← (IO.FS.Handle.mk path .append).toBaseIO then
      showCauses [toString e]
      return false
  let modules := if inv.allowModules then some evaluate else none
  let report ← answer inv.servicePath modules (Program.report inv)
  for line in report.log do IO.print (Program.outputLine line)
  match report.outcome with
  | .error causes => showCauses causes; return false
  | .ok (.shown text) => IO.print text; return true
  | .ok (.saved path text) =>
    match ← (IO.FS.writeFile path text).toBaseIO with
    | .ok _ => return true
    | .error e => showCauses [Program.writing path, toString e]; return false

end Main

end StageVars

/-- Run the program. -/
def main (args : List String) : IO UInt32 := do
  match StageVars.CommandLine.parse args with
  | .ok inv =>
    return if ← StageVars.Main.perform StageVars.Main.withoutNode inv then 0 else 1
  | .error e =>
    if e.exitCode = 0 then IO.print e.shown
    else IO.eprintln ("error: " ++ e.message ++ "\n\n" ++ StageVars.CommandLine.usage)
    return UInt32.ofNat e.exitCode

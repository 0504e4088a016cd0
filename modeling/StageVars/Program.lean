import StageVars.CommandLine.Parse
import StageVars.Files.ServiceFiles
import StageVars.Session
/-!
# StageVars.Program -- a run of the program

A run understands its arguments, opens the log file if there is to be one, loads the
service document, starts a session and shows what the command asks for. The part in
between is a lookup. It writes nothing but diagnostics, which make the log file grow from
question to question; the output is written at the end. Diagnostics that go to standard
output or standard error are left out.
-/

namespace StageVars

namespace Program

open CommandLine

/-- Why a run fails: what it was about, and the causes behind that. -/
abbrev Causes := List String

/-- What a run has to write at its end. -/
inductive Output where
  /-- A text for standard output. -/
  | shown (text : String)
  /-- A text for a file. -/
  | saved (path text : String)
deriving DecidableEq, Repr

/-- What the part between the arguments and the output came to. -/
structure Report where
  /-- The lines for the operator. -/
  log : List String
  outcome : Except Causes Output
deriving Repr

/-- What a failed step was about. -/
def loading (path : String) : String := "Failed to load service document " ++ path

/-- What a failed composition was about. -/
def composing : String := "Failed to compose variables"

/-- What a failed output was about. -/
def writing (path : String) : String := "Failed to write " ++ path

/-- A line of standard output. -/
def outputLine (text : String) : String := text ++ "\n"

/-- The service document of an invocation: the one it names, or the one that is there. -/
def service (inv : Invocation) : Lookup (Except Causes Service) :=
  match inv.config with
  | some path => do
    return (← (Service.load path).run).mapError fun e => [loading path, e.display]
  | none => do return (← (Service.discover inv.servicePath).run).mapError fun e => [e.display]

/-- What a command shows of a service after a session has started. -/
def output (command : Option Command) (s : Service) (session : Session) : Output :=
  let values := (Variables.ofService s).toValue
  match command with
  | some .merged => .shown (outputLine (Session.reportLine session.report))
  | some .computed => .shown (outputLine (Session.reportLine (Session.liveReport s)))
  | some (.render format none) => .shown (outputLine (render values format))
  | some (.render format (some path)) => .saved path (render values format)
  | none => .shown (outputLine (render values .json))

/-- The run between the arguments and the output. -/
def report (inv : Invocation) : Lookup Report := do
  match ← service inv with
  | .error causes => return ⟨[], .error causes⟩
  | .ok s =>
    let start ← Session.start s inv.stage
    match start.outcome with
    | .error e => return ⟨start.log, .error [composing, e.display]⟩
    | .ok session => return ⟨start.log, .ok (output inv.command start.service session)⟩

/-! ## Runs in a directory -/

/-- What a run meets besides its arguments and its files. -/
structure Host where
  /-- What running a module source comes to, by its path, with the files of a directory. -/
  node : Directory → String → Evaluation
  /-- What diagnostics add to the log file: by its number, before each question of the run,
  then before the output and at last behind it. -/
  diary : Nat → String

/-- What a run leaves. -/
structure Outcome where
  exit : Nat
  stdout : String
  /-- The causes of failure; misused arguments are not among them. -/
  causes : Causes
  directory : Directory
deriving Repr

/-- A failed run. -/
def Outcome.failed (stdout : String) (causes : Causes) (directory : Directory) : Outcome :=
  ⟨1, stdout, causes, directory⟩

/-- A directory in which a run has opened its log, and the file that keeps it, if one does. -/
structure Opened where
  directory : Directory
  log : Option Route
deriving Repr

/-- The directory when the log is open: a log file is there from then on. -/
def openLog (inv : Invocation) (d : Directory) : Except PathFault Opened :=
  match inv.log with
  | .file path => (d.target path).map fun route => ⟨d.touch route, some route⟩
  | .off | .stdout | .stderr => .ok ⟨d, none⟩

/-- A directory after a text was added to the log file, if there is one. -/
def noted (log : Option Route) (d : Directory) (text : String) : Directory :=
  match log with
  | some route => d.append route text
  | none => d

/-- The directory at a question: the log has grown by a text before it and before each of the
questions so far. -/
def Opened.during (o : Opened) (diary : Nat → String) : Nat → Directory
  | 0 => noted o.log o.directory (diary 0)
  | n + 1 => noted o.log (o.during diary n) (diary (n + 1))

/-- The files that an invocation sees in a directory. -/
def files (host : Host) (inv : Invocation) (d : Directory) : ServiceFiles :=
  ⟨d, inv.servicePath, if inv.allowModules then some (host.node d) else none⟩

/-- What an invocation sees at each of its questions. -/
def views (host : Host) (inv : Invocation) (o : Opened) (n : Nat) : FileView :=
  (files host inv (o.during host.diary n)).view

/-- The end of a run: its output after the lines for the operator. -/
def finish (r : Report) (d : Directory) : Outcome :=
  let log := String.join (r.log.map outputLine)
  match r.outcome with
  | .error causes => .failed log causes d
  | .ok (.shown text) => ⟨0, log ++ text, [], d⟩
  | .ok (.saved path text) =>
    match d.write path text with
    | .ok d => ⟨0, log, [], d⟩
    | .error fault => .failed log [writing path, fault.message] d

/-- The end of a run after so many questions, with the last diagnostics. -/
def conclude (host : Host) (o : Opened) (r : Report) (n : Nat) : Outcome :=
  let outcome := finish r (o.during host.diary n)
  { outcome with directory := noted o.log outcome.directory (host.diary (n + 1)) }

/-- Carry out an invocation in a directory. -/
def perform (host : Host) (inv : Invocation) (d : Directory) : Outcome :=
  match openLog inv d with
  | .error fault => .failed "" [fault.message] d
  | .ok o =>
    let (r, n) := (report inv).resultOver (views host inv o) 0
    conclude host o r n

/-- Run the program with arguments in a directory. -/
def run (host : Host) (args : List String) (d : Directory) : Outcome :=
  match parse args with
  | .error e => ⟨e.exitCode, e.shown, [], d⟩
  | .ok inv => perform host inv d

end Program

end StageVars

import StageVars.Logger
import StageVars.Output
/-!
# StageVars.CommandLine.Options -- the options and what they are worth

Each option has a long name, maybe a short one, and a kind of value. Global options may
stand before and behind the command, those of a command only behind it.
-/

namespace StageVars

namespace CommandLine

/-- The options. -/
inductive Opt where
  | config
  | servicePath
  | stage
  | allowModules
  | verbose
  | log
  | format
  | output
  | help
  | version
deriving DecidableEq, Repr

/-- What follows an option. -/
inductive Arity where
  /-- Nothing: the option is there or not. -/
  | flag
  /-- A value, behind an equals sign or as the next argument. -/
  | value
deriving DecidableEq, Repr

/-- A command. -/
inductive CommandName where
  | merged
  | computed
  | render
deriving DecidableEq, Repr

/-- Where an argument stands: before the command, or behind it. -/
inductive Level where
  | root
  | command (c : CommandName)
deriving DecidableEq, Repr

namespace Opt

/-- The name behind two dashes. -/
def long : Opt → String
  | .config => "config"
  | .servicePath => "service-path"
  | .stage => "stage"
  | .allowModules => "allow-modules"
  | .verbose => "verbose"
  | .log => "log"
  | .format => "format"
  | .output => "output"
  | .help => "help"
  | .version => "version"

/-- The letter behind one dash. -/
def short? : Opt → Option Char
  | .config => some 'c'
  | .servicePath => some 'p'
  | .stage => some 's'
  | .allowModules => none
  | .verbose => some 'v'
  | .log => some 'l'
  | .format => some 'f'
  | .output => some 'o'
  | .help => some 'h'
  | .version => some 'V'

/-- Whether an option takes a value. -/
def arity : Opt → Arity
  | .allowModules | .verbose | .help | .version => .flag
  | .config | .servicePath | .stage | .log | .format | .output => .value

end Opt

/-- The options that may stand at a level. -/
def Level.options : Level → List Opt
  | .root => [.config, .servicePath, .stage, .allowModules, .verbose, .log, .help, .version]
  | .command .render =>
    [.config, .servicePath, .stage, .allowModules, .verbose, .log, .format, .output, .help]
  | .command _ => [.config, .servicePath, .stage, .allowModules, .verbose, .log, .help]

/-- The option with a long name. -/
def Level.ofLong? (level : Level) (name : String) : Option Opt :=
  level.options.find? fun o => o.long == name

/-- The option with a letter. -/
def Level.ofShort? (level : Level) (letter : Char) : Option Opt :=
  level.options.find? fun o => o.short? == some letter

/-- The name of a command. -/
def CommandName.name : CommandName → String
  | .merged => "merged"
  | .computed => "computed"
  | .render => "render"

/-- The command with a name. -/
def CommandName.ofName? (s : String) : Option CommandName :=
  [CommandName.merged, .computed, .render].find? fun c => c.name == s

/-- The word that asks for help instead of a command. -/
def helpWord : String := "help"

/-- Why a command line is not carried out. -/
inductive UsageError where
  | unknownArgument (argument : String)
  | unknownCommand (word : String)
  | missingValue (option : Opt)
  | emptyPath (option : Opt)
  | badValue (option : Opt) (reason : String)
  | repeated (option : Opt)
  | valueForFlag (option : Opt)
  | helpRequested
  | versionRequested
deriving DecidableEq, Repr

/-- Asking for help or the version is no mistake. -/
def UsageError.exitCode : UsageError → Nat
  | .helpRequested | .versionRequested => 0
  | _ => 2

/-- The name of the program. -/
def programName : String := "composed-vars"

/-- The version of the program. -/
def version : String := "0.2.1"

/-- How the program is used. -/
def usage : String :=
  "Usage: " ++ programName ++ " [OPTIONS] [COMMAND]\n\n" ++
  "Commands:\n  merged    Show the variables as they were composed\n" ++
  "  computed  Show the variables as they are\n" ++
  "  render    Print or save the variables\n  help      Show this text\n"

/-- What is said about a command line that is not carried out. -/
def UsageError.message : UsageError → String
  | .unknownArgument argument => "unexpected argument '" ++ argument ++ "'"
  | .unknownCommand word => "unrecognized subcommand '" ++ word ++ "'"
  | .missingValue o | .emptyPath o => "a value is required for '--" ++ o.long ++ "'"
  | .badValue o reason => "invalid value for '--" ++ o.long ++ "': " ++ reason
  | .repeated o => "the argument '--" ++ o.long ++ "' cannot be used multiple times"
  | .valueForFlag o => "unexpected value for '--" ++ o.long ++ "'"
  | .helpRequested => usage
  | .versionRequested => programName ++ " " ++ version

/-- What standard output shows of a command line that is not carried out: what was
asked for, and nothing of a mistake. -/
def UsageError.shown : UsageError → String
  | .helpRequested => usage
  | .versionRequested => programName ++ " " ++ version ++ "\n"
  | _ => ""

/-- The options given at one level. -/
structure Given where
  config : Option String
  servicePath : Option String
  stage : Option String
  allowModules : Bool
  verbose : Bool
  log : Option DiagnosticTarget
  format : Option TextFormat
  output : Option String
deriving DecidableEq, Repr

namespace Given

/-- No options. -/
def empty : Given := ⟨none, none, none, false, false, none, none, none⟩

/-- A path, which must not be empty. -/
def path (o : Opt) (text : String) : Except UsageError String :=
  if text.isEmpty then .error (.emptyPath o) else .ok text

/-- A place for a value that must not have been filled before. -/
def once {α : Type} (o : Opt) (old : Option α) (new : Except UsageError α) :
    Except UsageError (Option α) :=
  match old with
  | some _ => .error (.repeated o)
  | none => new.map some

/-- Give an option with its value, which is empty for a flag. -/
def give (g : Given) (o : Opt) (text : String) : Except UsageError Given :=
  match o with
  | .config => do return { g with config := ← once o g.config (.ok text) }
  | .servicePath => do return { g with servicePath := ← once o g.servicePath (path o text) }
  | .stage => do return { g with stage := ← once o g.stage (.ok text) }
  | .allowModules =>
    if g.allowModules then .error (.repeated o) else .ok { g with allowModules := true }
  | .verbose => if g.verbose then .error (.repeated o) else .ok { g with verbose := true }
  | .log => do
    let target := (DiagnosticTarget.ofText text).mapError (.badValue o)
    return { g with log := ← once o g.log target }
  | .format => do
    let format := match TextFormat.ofName? text with
      | some f => .ok f
      | none => .error (.badValue o (TextFormat.unknown text))
    return { g with format := ← once o g.format format }
  | .output => do return { g with output := ← once o g.output (path o text) }
  | .help => .error .helpRequested
  | .version => .error .versionRequested

/-- The options of two levels together; the inner level wins. -/
def overlaidBy (outer inner : Given) : Given where
  config := inner.config <|> outer.config
  servicePath := inner.servicePath <|> outer.servicePath
  stage := inner.stage <|> outer.stage
  allowModules := inner.allowModules || outer.allowModules
  verbose := inner.verbose || outer.verbose
  log := inner.log <|> outer.log
  format := inner.format <|> outer.format
  output := inner.output <|> outer.output

end Given

/-- What the program is asked to do. -/
inductive Command where
  | merged
  | computed
  | render (format : TextFormat) (output : Option String)
deriving DecidableEq, Repr

/-- A command line that is understood. -/
structure Invocation where
  config : Option String
  servicePath : String
  stage : Option String
  allowModules : Bool
  verbose : Bool
  log : DiagnosticTarget
  command : Option Command
deriving DecidableEq, Repr

/-- The invocation that the given options and command describe, with the defaults for
what was left out. -/
def Given.invocation (g : Given) (c : Option CommandName) : Invocation where
  config := g.config
  servicePath := g.servicePath.getD "."
  stage := g.stage
  allowModules := g.allowModules
  verbose := g.verbose
  log := g.log.getD .stderr
  command := c.map fun
    | .merged => .merged
    | .computed => .computed
    | .render => .render (g.format.getD .json) g.output

end CommandLine

end StageVars

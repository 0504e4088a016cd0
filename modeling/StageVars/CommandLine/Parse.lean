import StageVars.CommandLine.Options
/-!
# StageVars.CommandLine.Parse -- reading a command line

Arguments are read from left to right. An option that still waits for its value takes
the next argument that does not look like an option; its value is looked at when the
next option comes or the level ends. The first word that is no value is the command,
and from there on the options belong to the command's level. Behind two dashes alone
there are no options any more, and no words either.
-/

namespace StageVars

namespace CommandLine

/-- The state of reading one level. -/
structure Scan where
  given : Given
  /-- The last option that takes a value, and its value if that came. -/
  pending : Option (Opt × Option String)
deriving Repr

namespace Scan

/-- The start of a level. -/
def start : Scan := ⟨.empty, none⟩

/-- Look at the value of the pending option. -/
def settle (s : Scan) : Except UsageError Scan :=
  match s.pending with
  | none => .ok s
  | some (o, none) => .error (.missingValue o)
  | some (o, some value) => do return ⟨← s.given.give o value, none⟩

/-- Whether the pending option still waits for its value. -/
def waits (s : Scan) : Bool :=
  match s.pending with
  | some (_, none) => true
  | _ => false

/-- Give the waiting option its value. -/
def supply (s : Scan) (value : String) : Scan :=
  { s with pending := s.pending.map fun (o, _) => (o, some value) }

/-- Give an option at once. -/
def give (s : Scan) (o : Opt) (value : String) : Except UsageError Scan := do
  let s ← s.settle
  return ⟨← s.given.give o value, none⟩

/-- Let an option wait for its value. -/
def await (s : Scan) (o : Opt) : Except UsageError Scan := do
  let s ← s.settle
  return ⟨s.given, some (o, none)⟩

/-- A long option behind its two dashes: its name, and maybe an equals sign and a
value. -/
def long (level : Level) (s : Scan) (body : List Char) : Except UsageError Scan :=
  let name := String.ofList (body.takeWhile (· != '='))
  let value := match body.dropWhile (· != '=') with
    | [] => none
    | _ :: v => some (String.ofList v)
  match level.ofLong? name with
  | none => .error (.unknownArgument ("--" ++ name))
  | some o =>
    match o.arity, value with
    | .value, some v => s.give o v
    | .value, none => s.await o
    | .flag, none => s.give o ""
    | .flag, some _ => .error (.valueForFlag o)

/-- Short options behind one dash: flags, and at the end maybe an option with its
value, which may stand behind an equals sign. -/
def short (level : Level) (s : Scan) : List Char → Except UsageError Scan
  | [] => .ok s
  | c :: rest =>
    match level.ofShort? c with
    | none => .error (.unknownArgument ("-" ++ c.toString))
    | some o =>
      match o.arity, rest with
      | .flag, rest => do short level (← s.give o "") rest
      | .value, [] => s.await o
      | .value, '=' :: v => s.give o (String.ofList v)
      | .value, v => s.give o (String.ofList v)

end Scan

/-! ## Arguments -/

/-- What an argument is. -/
inductive Shape where
  /-- Two dashes alone. -/
  | terminator
  | long (body : List Char)
  | short (body : List Char)
  /-- No option: a value or a word. -/
  | word
deriving DecidableEq, Repr

/-- The shape of an argument. A single dash is a word. -/
def shape (arg : String) : Shape :=
  match arg.toList with
  | ['-', '-'] => .terminator
  | '-' :: '-' :: body => .long body
  | '-' :: c :: body => .short (c :: body)
  | _ => .word

/-- What happens to a word that is neither a value nor a command. Before the command
every word should have been one; behind two dashes even a command's name is no
command. -/
def strayWord (level : Level) (terminated : Bool) (word : String) : UsageError :=
  match level with
  | .command _ => .unknownArgument word
  | .root =>
    let isCommand := (CommandName.ofName? word).isSome || word == helpWord
    if terminated && isCommand then .unknownArgument word else .unknownCommand word

/-- Read the arguments of a command up to the end. -/
def scanCommand (c : CommandName) (s : Scan) : List String → Except UsageError Given
  | [] => do return (← s.settle).given
  | arg :: rest =>
    match shape arg with
    | .terminator =>
      match rest with
      | [] => do return (← s.settle).given
      | word :: _ => .error (strayWord (.command c) true word)
    | .long body => do scanCommand c (← s.long (.command c) body) rest
    | .short body => do scanCommand c (← s.short (.command c) body) rest
    | .word =>
      if s.waits then scanCommand c (s.supply arg) rest
      else .error (strayWord (.command c) false arg)

/-- Help on nothing or on one command; anything else is an unknown command. -/
def helpOn : List String → UsageError
  | [] => .helpRequested
  | [word] =>
    if (CommandName.ofName? word).isSome || word == helpWord then .helpRequested
    else .unknownCommand word
  | word :: extra :: _ =>
    if (CommandName.ofName? word).isSome || word == helpWord then .unknownCommand extra
    else .unknownCommand word

/-- Read the arguments of a whole command line. The option that is pending before the
command is settled only after the command's own arguments. -/
def scanRoot (s : Scan) : List String → Except UsageError Invocation
  | [] => do return (← s.settle).given.invocation none
  | arg :: rest =>
    match shape arg with
    | .terminator =>
      match rest with
      | [] => do return (← s.settle).given.invocation none
      | word :: _ => .error (strayWord .root true word)
    | .long body => do scanRoot (← s.long .root body) rest
    | .short body => do scanRoot (← s.short .root body) rest
    | .word =>
      if s.waits then scanRoot (s.supply arg) rest
      else if arg == helpWord then .error (helpOn rest)
      else match CommandName.ofName? arg with
        | none => .error (strayWord .root false arg)
        | some c => do
          let inner ← scanCommand c .start rest
          let outer ← s.settle
          return (outer.given.overlaidBy inner).invocation (some c)

/-- Understand a command line, given without the program's name. -/
def parse (args : List String) : Except UsageError Invocation := scanRoot .start args

end CommandLine

end StageVars

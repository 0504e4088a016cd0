/-!
# StageVars.Logger -- lines for the operator

A logger puts its name before every message. Buffered loggers keep their lines;
clones of a logger share one buffer, and loggers made anew have buffers of their own,
whatever their names.
-/

namespace StageVars

/-- A logger that writes under a name. -/
structure Logger where
  name : String
deriving DecidableEq, Repr

namespace Logger

/-- The line of a message. -/
def line (l : Logger) (message : String) : String := l.name ++ ": " ++ message

/-- The message of several parts. -/
def joined (parts : List String) : String := String.intercalate " " parts

/-- The message of a warning. -/
def warning (text : String) : String := joined ["WARNING:", text]

end Logger

/-- A logger and the number of its buffer. -/
structure BufferedLogger where
  logger : Logger
  buffer : Nat
deriving DecidableEq, Repr

/-- Buffered loggers and their buffers, both in order of their making. -/
structure LogBook where
  loggers : List BufferedLogger
  buffers : List (List String)
deriving Repr

namespace LogBook

/-- The book without loggers. -/
def empty : LogBook := ⟨[], []⟩

/-- Add a logger with a buffer of its own. -/
def add (book : LogBook) (name : String) : LogBook :=
  ⟨book.loggers ++ [⟨⟨name⟩, book.buffers.length⟩], book.buffers ++ [[]]⟩

/-- Add a clone of a logger. -/
def clone (book : LogBook) (index : Nat) : LogBook :=
  match book.loggers[index]? with
  | none => book
  | some l => { book with loggers := book.loggers ++ [l] }

/-- Write a message with a logger. -/
def log (book : LogBook) (index : Nat) (message : String) : LogBook :=
  match book.loggers[index]? with
  | none => book
  | some l => { book with
      buffers := book.buffers.modify l.buffer fun lines => lines ++ [l.logger.line message] }

/-- The lines that a logger shows. -/
def lines (book : LogBook) (index : Nat) : List String :=
  match book.loggers[index]? with
  | none => []
  | some l => book.buffers[l.buffer]?.getD []

end LogBook

/-- Where diagnostics go. -/
inductive DiagnosticTarget where
  | off
  | stdout
  | stderr
  | file (path : String)
deriving DecidableEq, Repr, Inhabited

namespace DiagnosticTarget

/-- What is said about an empty target. -/
def emptyTarget : String := "Log target must not be empty"

/-- The target that a text names. -/
def ofText (s : String) : Except String DiagnosticTarget :=
  match s with
  | "0" | "off" => .ok .off
  | "1" | "stdout" => .ok .stdout
  | "2" | "stderr" => .ok .stderr
  | "" => .error emptyTarget
  | path => .ok (.file path)

end DiagnosticTarget

end StageVars

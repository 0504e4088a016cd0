import StageVars.Failure
/-!
# StageVars.Lookup -- computations that ask about files

A `Lookup` is a tree of questions: whether a path is there, and what it holds. It is
answered by a `FileView`, two arbitrary functions; the same tree can be answered by
the files of a machine. `result` is what comes out and `calls` the questions on the
way with their answers; `result_bind` and `calls_bind` say that running one lookup
after another appends their calls. Where files change between the questions, there is a
view for each of them, and `resultOver` also counts how many were asked.
-/

namespace StageVars

/-- What reading a path gives: a value, nothing, or a failure. -/
abbrev ReadResult := Except Failure (Option Value)

/-- The answers to all questions about files. -/
structure FileView where
  /-- Whether a path is there. -/
  present : String → Bool
  /-- What a path holds. -/
  content : String → ReadResult

/-- A computation that asks about files. -/
inductive Lookup (α : Type) where
  | done (a : α)
  | probe (path : String) (next : Bool → Lookup α)
  | read (path : String) (next : ReadResult → Lookup α)

/-- A question with its answer. -/
inductive Call where
  | probe (path : String) (found : Bool)
  | read (path : String) (result : ReadResult)

namespace Call

/-- The path that a question is about. -/
def path : Call → String
  | .probe path _ | .read path _ => path

/-- One line about a question and its answer. -/
def display : Call → String
  | .probe path found => "exists " ++ path ++ (if found then " true" else " false")
  | .read path (.ok (some _)) => "read " ++ path ++ " some"
  | .read path (.ok none) => "read " ++ path ++ " none"
  | .read path (.error _) => "read " ++ path ++ " error"

end Call

namespace Lookup

variable {α β : Type}

/-- Continue with what comes out. -/
def bind : Lookup α → (α → Lookup β) → Lookup β
  | .done a, f => f a
  | .probe path next, f => .probe path fun answer => (next answer).bind f
  | .read path next, f => .read path fun answer => (next answer).bind f

instance : Monad Lookup where
  pure := .done
  bind := bind

/-- Ask whether a path is there. -/
def isPresent (path : String) : Lookup Bool := .probe path .done

/-- Ask what a path holds. -/
def contentOf (path : String) : Lookup ReadResult := .read path .done

/-- What comes out when a view answers. -/
def result (files : FileView) : Lookup α → α
  | .done a => a
  | .probe path next => (next (files.present path)).result files
  | .read path next => (next (files.content path)).result files

/-- The questions that a view is asked, with its answers. -/
def calls (files : FileView) : Lookup α → List Call
  | .done _ => []
  | .probe path next =>
    .probe path (files.present path) :: (next (files.present path)).calls files
  | .read path next =>
    .read path (files.content path) :: (next (files.content path)).calls files

/-- What comes out when each question has a view of its own, starting with number `n`, and the
number of the question that would be next. -/
def resultOver (views : Nat → FileView) (n : Nat) : Lookup α → α × Nat
  | .done a => (a, n)
  | .probe path next => (next ((views n).present path)).resultOver views (n + 1)
  | .read path next => (next ((views n).content path)).resultOver views (n + 1)

/-! ## One lookup after another -/

@[simp] theorem result_pure (files : FileView) (a : α) :
    (pure a : Lookup α).result files = a := rfl

@[simp] theorem calls_pure (files : FileView) (a : α) :
    (pure a : Lookup α).calls files = [] := rfl

@[simp] theorem result_bind (files : FileView) (x : Lookup α) (f : α → Lookup β) :
    (x >>= f).result files = (f (x.result files)).result files := by
  induction x with
  | done a => rfl
  | probe path next ih => exact ih (files.present path)
  | read path next ih => exact ih (files.content path)

@[simp] theorem calls_bind (files : FileView) (x : Lookup α) (f : α → Lookup β) :
    (x >>= f).calls files = x.calls files ++ (f (x.result files)).calls files := by
  induction x with
  | done a => rfl
  | probe path next ih => exact congrArg (Call.probe path _ :: ·) (ih (files.present path))
  | read path next ih => exact congrArg (Call.read path _ :: ·) (ih (files.content path))

/-! ## Files that change -/

@[simp] theorem resultOver_pure (views : Nat → FileView) (n : Nat) (a : α) :
    (pure a : Lookup α).resultOver views n = (a, n) := rfl

@[simp] theorem resultOver_bind (views : Nat → FileView) (n : Nat) (x : Lookup α)
    (f : α → Lookup β) : (x >>= f).resultOver views n
      = (f (x.resultOver views n).1).resultOver views (x.resultOver views n).2 := by
  induction x generalizing n with
  | done a => rfl
  | probe path next ih => exact ih ((views n).present path) (n + 1)
  | read path next ih => exact ih ((views n).content path) (n + 1)

/-- Files that stay the same give all answers. -/
theorem resultOver_const (files : FileView) (n : Nat) (x : Lookup α) :
    (x.resultOver (fun _ => files) n).1 = x.result files := by
  induction x generalizing n with
  | done a => rfl
  | probe path next ih => exact ih (files.present path) (n + 1)
  | read path next ih => exact ih (files.content path) (n + 1)

end Lookup

end StageVars

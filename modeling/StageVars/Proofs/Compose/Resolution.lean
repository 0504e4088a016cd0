import StageVars.Proofs.Lookup.Composing
import StageVars.Proofs.Lookup.Probing
/-!
# StageVars.Proofs.Compose.Resolution -- what becomes of a value, and what is asked

For every value, stem, stage and strategy, and for any files: which paths are looked
for, which are read and in which order, and what the value is replaced by.

* `FileView.reads`: the reads of some paths, up to and with the first that fails.
* `calls_combine`, `outcome_combine`: the files of one value.
* `value_outcome_calls`: all shapes of a value.
-/

namespace StageVars

namespace FileView

variable (files : FileView)

/-- The failure that reading a path gives. -/
def failureAt (path : String) : Option Failure :=
  match files.content path with
  | .ok _ => none
  | .error e => some e

/-- The failure of the first of some paths that cannot be read. -/
def firstFailure (paths : List String) : Option Failure := paths.findSome? files.failureAt

/-- The reads of some paths in order, up to and with the first that fails. -/
def reads : List String → List Call
  | [] => []
  | path :: rest =>
    .read path (files.content path) :: match files.failureAt path with
      | none => reads rest
      | some _ => []

/-- What a path holds; without a path, nothing. -/
def held : Option String → ReadResult
  | none => .ok none
  | some path => files.content path

theorem failureAt_eq_some_iff (path : String) (e : Failure) :
    files.failureAt path = some e ↔ files.content path = .error e := by
  rw [failureAt]
  split <;> simp [*]

theorem firstFailure_append (ps qs : List String) :
    files.firstFailure (ps ++ qs) = (files.firstFailure ps).or (files.firstFailure qs) :=
  List.findSome?_append

/-- Further paths are read unless an earlier one fails. -/
theorem reads_append (ps qs : List String) :
    files.reads (ps ++ qs)
      = files.reads ps ++ match files.firstFailure ps with
        | none => files.reads qs
        | some _ => [] := by
  induction ps with
  | nil => rfl
  | cons path rest ih =>
    rw [List.cons_append, reads, reads, firstFailure, List.findSome?_cons, ← firstFailure]
    cases files.failureAt path with
    | none => simp [ih]
    | some e => simp

/-- The failure of an optional path. -/
theorem held_eq_error_iff (path : Option String) (e : Failure) :
    files.held path = .error e ↔ files.firstFailure path.toList = some e := by
  cases path with
  | none => simp [held, firstFailure]
  | some path => simp [held, firstFailure, failureAt_eq_some_iff]

theorem firstFailure_eq_none_of_held {path : Option String} {v : Option Value}
    (h : files.held path = .ok v) : files.firstFailure path.toList = none := by
  cases hf : files.firstFailure path.toList with
  | none => rfl
  | some e =>
    rw [(files.held_eq_error_iff path e).mpr hf] at h
    cases h

end FileView

namespace Compose

open Composing

variable (files : FileView)

/-! ## The files of one value -/

@[simp] theorem outcome_source (path : Option String) :
    outcome files (source path) = files.held path := by
  cases path <;> rfl

theorem calls_source (path : Option String) :
    calls files (source path) = files.reads path.toList := by
  cases path with
  | none => rfl
  | some path =>
    show [Call.read path (files.content path)] = _
    cases h : files.failureAt path <;> simp [FileView.reads, h]

/-- Both files are read, the base file first, unless that fails. -/
theorem calls_combine (strategy : Merge.Strategy) (inline : Option Value)
    (base stage : Option String) :
    calls files (combine strategy inline base stage)
      = files.reads (base.toList ++ stage.toList) := by
  rw [combine, Composing.calls_bind, outcome_source, calls_source, files.reads_append]
  cases h : files.held base with
  | error e => rw [(files.held_eq_error_iff base e).mp h]
  | ok b =>
    rw [files.firstFailure_eq_none_of_held h]
    show _ ++ calls files (source stage >>= _) = _ ++ files.reads stage.toList
    rw [Composing.calls_bind, calls_source, outcome_source]
    cases files.held stage <;> simp

/-- The value of both files and what stands in the document. -/
theorem outcome_combine (strategy : Merge.Strategy) (inline : Option Value)
    (base stage : Option String) :
    outcome files (combine strategy inline base stage) = do
      let base ← files.held base
      let stage ← files.held stage
      return strategy.merge [inline, base, stage] := by
  simp only [combine, outcome_bind, outcome_source, outcome_pure]
  rfl

/-- The merge of the files without a value of the document is that of the files alone. -/
theorem merge_none_cons (strategy : Merge.Strategy) (sources : List (Option Value)) :
    strategy.merge (none :: sources) = strategy.merge sources := rfl

/-! ## Values that are references -/

theorem outcome_referenced {text : String} {r : Reference} (h : Reference.parse? text = some r)
    (stage : String) (strategy : Merge.Strategy) :
    outcome files (referenced text stage strategy) = do
      let base ← files.content r.path
      let staged ← files.content (r.sibling stage)
      return .replaced (strategy.merge [base, staged]) := by
  simp only [referenced, h, outcome_bind, outcome_combine, outcome_pure, merge_none_cons,
    FileView.held, bind_assoc]
  rfl

theorem calls_referenced {text : String} {r : Reference} (h : Reference.parse? text = some r)
    (stage : String) (strategy : Merge.Strategy) :
    calls files (referenced text stage strategy) = files.reads [r.path, r.sibling stage] := by
  simp only [referenced, h]
  rw [Composing.calls_bind, calls_combine]
  cases outcome files (combine strategy none (some r.path) (some (r.sibling stage))) <;> simp

/-! ## Values with files of their own -/

/-- The base file of a stem, if there is one. -/
def baseOf (stem : String) : Option String := files.firstPresent (candidates ("./" ++ stem))

/-- The file of a stem for a stage, if there is one. -/
def stagedOf (stem stage : String) : Option String :=
  files.firstPresent (candidates ("./" ++ stem ++ "." ++ stage))

/-- A composition that looks for the base file and then for that of the stage, keeps the
value if it finds neither, and else reads what it found and merges it over `inline`. -/
def ComposesFrom (inline : Value) (stem stage : String) (strategy : Merge.Strategy)
    (x : Composing Change) : Prop :=
  calls files x = files.probes (candidates ("./" ++ stem))
      ++ files.probes (candidates ("./" ++ stem ++ "." ++ stage))
      ++ files.reads ((baseOf files stem).toList ++ (stagedOf files stem stage).toList)
  ∧ outcome files x
      = if baseOf files stem = none ∧ stagedOf files stem stage = none then .ok .kept
        else do
          let base ← files.held (baseOf files stem)
          let staged ← files.held (stagedOf files stem stage)
          return .replaced (strategy.merge [some inline, base, staged])

/-- What `withFiles` does once it knows which files are there. -/
theorem composesFrom_withFiles (literal : Option Value) (stem stage : String)
    (strategy : Merge.Strategy) :
    ComposesFrom files (contribution literal) stem stage strategy
      (withFiles literal stem stage strategy) := by
  have hbase : ("./" ++ stem).isEmpty = false := by simp
  have hstage : ("./" ++ stem ++ "." ++ stage).isEmpty = false := by simp
  rw [ComposesFrom, withFiles, calls_bind_of_ok files (outcome_lift files _), calls_lift,
    calls_bind_of_ok files (outcome_lift files _), calls_lift, outcome_bind, outcome_lift]
  show _ ∧ (outcome files (liftM _ >>= _) = _)
  rw [outcome_bind, outcome_lift]
  rw [Lookup.calls_locate files hbase, Lookup.result_locate files hbase,
    Lookup.calls_locate files hstage, Lookup.result_locate files hstage, ← baseOf, ← stagedOf,
    List.append_assoc, List.append_cancel_left_eq, List.append_cancel_left_eq]
  show calls files (if _ then _ else _) = _ ∧ outcome files (if _ then _ else _) = _
  by_cases hnone : baseOf files stem = none ∧ stagedOf files stem stage = none
  · simp [hnone, FileView.reads]
  · have hsome : ¬ ((baseOf files stem).isNone && (stagedOf files stem stage).isNone) = true := by
      rwa [Bool.and_eq_true, Option.isNone_iff_eq_none, Option.isNone_iff_eq_none]
    rw [if_neg hnone, if_neg hsome]
    constructor
    · rw [Composing.calls_bind, calls_combine]
      cases outcome files (combine strategy _ _ _) <;> simp
    · rw [outcome_bind, outcome_combine]
      simp only [bind_assoc, pure_bind, outcome_pure]
      rfl

/-! ## All values -/

/-- Whatever the files are, a merge of them is an object. -/
theorem isObject_of_merged {strategy : Merge.Strategy} {base staged : ReadResult}
    {sources : Option Value → Option Value → List (Option Value)} {v : Value}
    (h : (do
      let b ← base
      let s ← staged
      return Change.replaced (strategy.merge (sources b s))) = Except.ok (.replaced v)) :
    v.isObject = true := by
  cases base with
  | error e => cases h
  | ok b =>
    cases staged with
    | error e => cases h
    | ok s =>
      cases h
      rfl

theorem ComposesFrom.isObject {inline : Value} {stem stage : String}
    {strategy : Merge.Strategy} {x : Composing Change}
    (h : ComposesFrom files inline stem stage strategy x) {v : Value}
    (hv : outcome files x = .ok (.replaced v)) : v.isObject = true := by
  rw [h.2] at hv
  split at hv
  · cases hv
  · exact isObject_of_merged hv

/-- A value is replaced by objects only. -/
theorem isObject_of_replaced {literal : Option Value} {stem stage : String}
    {strategy : Merge.Strategy} {v : Value}
    (h : outcome files (value literal stem stage strategy) = .ok (.replaced v)) :
    v.isObject = true := by
  match literal with
  | some (.bool _) | some (.number _) => cases h
  | some (.string text) =>
    change outcome files (referenced text stage strategy) = _ at h
    cases hr : Reference.parse? text with
    | none => simp [referenced, hr] at h
    | some r =>
      rw [outcome_referenced files hr] at h
      exact isObject_of_merged h
  | none | some .null | some (.object _) | some (.array _) =>
    exact (composesFrom_withFiles files _ stem stage strategy).isObject files h

/-- **What becomes of a value, and what is asked.** A truth value, a number and a string
that is no reference are kept, and nothing is asked. A reference reads its own path and,
if that succeeds, the path of the stage beside it, and becomes the merge of the two. Any
other value looks for its files, and becomes the merge of itself and those that are
there; a value that is neither object nor array stands for the empty object. What a value
is replaced by is always an object. -/
theorem value_outcome_calls (literal : Option Value) (stem stage : String)
    (strategy : Merge.Strategy) :
    (match literal with
      | some (.bool _) | some (.number _) =>
        outcome files (value literal stem stage strategy) = .ok .kept
        ∧ calls files (value literal stem stage strategy) = []
      | some (.string text) =>
        match Reference.parse? text with
        | none =>
          outcome files (value literal stem stage strategy) = .ok .kept
          ∧ calls files (value literal stem stage strategy) = []
        | some r =>
          calls files (value literal stem stage strategy) = files.reads [r.path, r.sibling stage]
          ∧ outcome files (value literal stem stage strategy) = do
              let base ← files.content r.path
              let staged ← files.content (r.sibling stage)
              return .replaced (strategy.merge [base, staged])
      | none | some .null =>
        ComposesFrom files (.object []) stem stage strategy (value literal stem stage strategy)
      | some (.object fields) =>
        ComposesFrom files (.object fields) stem stage strategy (value literal stem stage strategy)
      | some (.array items) =>
        ComposesFrom files (.array items) stem stage strategy (value literal stem stage strategy))
    ∧ ∀ v, outcome files (value literal stem stage strategy) = .ok (.replaced v) →
        v.isObject = true := by
  refine ⟨?_, fun v hv => isObject_of_replaced files hv⟩
  match literal with
  | some (.bool _) | some (.number _) => exact ⟨rfl, rfl⟩
  | some (.string text) =>
    show match Reference.parse? text with | none => _ | some r => _
    cases h : Reference.parse? text with
    | none => simp [value, referenced, h]
    | some r =>
      exact ⟨calls_referenced files h stage strategy, outcome_referenced files h stage strategy⟩
  | none | some .null => exact composesFrom_withFiles files none stem stage strategy
  | some (.object fields) =>
    exact composesFrom_withFiles files (some (.object fields)) stem stage strategy
  | some (.array items) =>
    exact composesFrom_withFiles files (some (.array items)) stem stage strategy

end Compose

end StageVars

import StageVars.Proofs.Compose.Resolution
import StageVars.Service
/-!
# StageVars.Proofs.Compose.Failing -- which read makes a composition fail

The files of a value are known before any of them is read. `pathsOf` lists them, and a
composition reads along that list, up to and with the first path that fails, and fails
with its failure. The same holds of both sections of a service, one list after the other.
-/

namespace StageVars

namespace FileView

variable (files : FileView)

@[simp] theorem filter_isRead_probes (paths : List String) :
    (files.probes paths).filter Call.isRead = [] := by
  simp only [probes, List.filter_append, List.filter_map, List.append_eq_nil_iff,
    List.map_eq_nil_iff, List.filter_eq_nil_iff]
  exact ⟨fun _ _ h => (Bool.false_ne_true h).elim, fun _ _ h => (Bool.false_ne_true h).elim⟩

@[simp] theorem filter_isRead_reads (paths : List String) :
    (files.reads paths).filter Call.isRead = files.reads paths := by
  induction paths with
  | nil => rfl
  | cons path rest ih =>
    rw [reads, List.filter_cons_of_pos rfl]
    cases files.failureAt path with
    | none => rw [ih]
    | some e => rfl

/-- Two reads in a row fail with the first failure of both. -/
theorem two_reads_eq_error_iff {α : Type} (base staged : Option String)
    (f : Option Value → Option Value → α) (e : Failure) :
    (do
      let b ← files.held base
      let s ← files.held staged
      return f b s) = Except.error e
      ↔ files.firstFailure (base.toList ++ staged.toList) = some e := by
  rw [firstFailure_append]
  cases hb : files.held base with
  | error e' =>
    rw [(files.held_eq_error_iff base e').mp hb]
    simp [bind, Except.bind]
  | ok b =>
    have hnone : files.firstFailure base.toList = none := files.firstFailure_eq_none_of_held hb
    rw [hnone, Option.none_or, ← held_eq_error_iff]
    cases files.held staged <;> simp [bind, Except.bind, pure, Except.pure]

end FileView

namespace Compose

open Composing

variable (files : FileView)

/-- The paths that composing a value reads if none of them fails, the base file before
that of the stage. -/
def pathsOf (literal : Option Value) (stem stage : String) : List String :=
  match literal with
  | some (.string text) =>
    match Reference.parse? text with
    | none => []
    | some r => [r.path, r.sibling stage]
  | some (.bool _) | some (.number _) => []
  | none | some .null | some (.object _) | some (.array _) =>
    (baseOf files stem).toList ++ (stagedOf files stem stage).toList

/-- Composing a value reads along its paths. -/
theorem reads_value (literal : Option Value) (stem stage : String) (strategy : Merge.Strategy) :
    (calls files (value literal stem stage strategy)).filter Call.isRead
      = files.reads (pathsOf files literal stem stage) := by
  match literal with
  | some (.bool _) | some (.number _) => rfl
  | some (.string text) =>
    show (calls files (referenced text stage strategy)).filter _ = _
    cases h : Reference.parse? text with
    | none => simp [referenced, pathsOf, h, FileView.reads]
    | some r =>
      rw [calls_referenced files h, files.filter_isRead_reads]
      simp only [pathsOf, h]
  | none | some .null | some (.object _) | some (.array _) =>
    simp only [value]
    rw [(composesFrom_withFiles files _ stem stage strategy).1, List.filter_append,
      List.filter_append, files.filter_isRead_probes, files.filter_isRead_probes,
      files.filter_isRead_reads]
    rfl

/-- Composing a value fails with the first failure along its paths. -/
theorem outcome_value_eq_error_iff (literal : Option Value) (stem stage : String)
    (strategy : Merge.Strategy) (e : Failure) :
    outcome files (value literal stem stage strategy) = .error e
      ↔ files.firstFailure (pathsOf files literal stem stage) = some e := by
  match literal with
  | some (.bool _) | some (.number _) => simp [value, pathsOf, FileView.firstFailure]
  | some (.string text) =>
    show outcome files (referenced text stage strategy) = _ ↔ _
    cases h : Reference.parse? text with
    | none => simp [referenced, pathsOf, h, FileView.firstFailure]
    | some r =>
      rw [outcome_referenced files h]
      simp only [pathsOf, h]
      exact files.two_reads_eq_error_iff (some r.path) (some (r.sibling stage)) _ e
  | none | some .null | some (.object _) | some (.array _) =>
    simp only [value, pathsOf]
    rw [(composesFrom_withFiles files _ stem stage strategy).2]
    split
    next hnone => simp [hnone, FileView.firstFailure]
    next => exact files.two_reads_eq_error_iff _ _ _ e

/-! ## The last call is the read that fails -/

variable {files}

theorem isRead_of_mem_probes {paths : List String} {call : Call}
    (h : call ∈ files.probes paths) : call.isRead = false := by
  have hnone := files.filter_isRead_probes paths
  rw [List.filter_eq_nil_iff] at hnone
  simpa using hnone call h

theorem stopsAtFailure_source (path : Option String) : StopsAtFailure files (source path) := by
  cases path with
  | none => exact stopsAtFailure_pure none
  | some path => exact stopsAtFailure_read path

theorem stopsAtFailure_combine (strategy : Merge.Strategy) (inline : Option Value)
    (base stage : Option String) :
    StopsAtFailure files (combine strategy inline base stage) :=
  (stopsAtFailure_source base).bind fun _ =>
    (stopsAtFailure_source stage).bind fun _ => stopsAtFailure_pure _

theorem stopsAtFailure_locate (stem : String) :
    StopsAtFailure files (monadLift (Lookup.locate (some stem)) : Composing (Option String)) := by
  apply stopsAtFailure_lift
  intro call hcall
  cases h : stem.isEmpty with
  | true => simp [Lookup.locate, h] at hcall
  | false =>
    rw [Lookup.calls_locate files h] at hcall
    exact isRead_of_mem_probes hcall

theorem stopsAtFailure_withFiles (literal : Option Value) (stem stage : String)
    (strategy : Merge.Strategy) :
    StopsAtFailure files (withFiles literal stem stage strategy) := by
  refine (stopsAtFailure_locate _).bind fun base => (stopsAtFailure_locate _).bind fun staged => ?_
  show StopsAtFailure files (if _ then _ else _)
  split
  · exact stopsAtFailure_pure _
  · exact (stopsAtFailure_combine strategy _ base staged).bind fun _ => stopsAtFailure_pure _

theorem stopsAtFailure_value (literal : Option Value) (stem stage : String)
    (strategy : Merge.Strategy) :
    StopsAtFailure files (value literal stem stage strategy) := by
  match literal with
  | some (.bool _) | some (.number _) => exact stopsAtFailure_pure _
  | some (.string text) =>
    show StopsAtFailure files (referenced text stage strategy)
    rw [referenced]
    split
    · exact stopsAtFailure_pure _
    · exact (stopsAtFailure_combine strategy _ _ _).bind fun _ => stopsAtFailure_pure _
  | none | some .null | some (.object _) | some (.array _) =>
    exact stopsAtFailure_withFiles _ stem stage strategy

end Compose

namespace Service

open Composing

variable (files : FileView)

/-- The paths that composing a section of a service reads if none of them fails. -/
def sectionPaths (s : Service) (sec : Section) (stage : String) : List String :=
  Compose.pathsOf files (s.get? sec) sec.stem stage

/-- The paths that composing a service reads if none of them fails: the base file and the
stage's file of the custom section, and then those of the environment. -/
def paths (s : Service) (stage : String) : List String :=
  s.sectionPaths files .custom stage ++ s.sectionPaths files .environment stage

theorem outcome_section_eq_error_iff (s : Service) (sec : Section) (stage : String)
    (e : Failure) :
    outcome files (sec.compose (s.get? sec) stage) = .error e
      ↔ files.firstFailure (s.sectionPaths files sec stage) = some e :=
  Compose.outcome_value_eq_error_iff files (s.get? sec) sec.stem stage sec.strategy e

theorem firstFailure_eq_none_of_section {s : Service} {sec : Section} {stage : String}
    {change : Change} (h : outcome files (sec.compose (s.get? sec) stage) = .ok change) :
    files.firstFailure (s.sectionPaths files sec stage) = none := by
  cases hf : files.firstFailure (s.sectionPaths files sec stage) with
  | none => rfl
  | some e =>
    rw [(s.outcome_section_eq_error_iff files sec stage e).mpr hf] at h
    cases h

theorem reads_section (s : Service) (sec : Section) (stage : String) :
    (calls files (sec.compose (s.get? sec) stage)).filter Call.isRead
      = files.reads (s.sectionPaths files sec stage) :=
  Compose.reads_value files (s.get? sec) sec.stem stage sec.strategy

theorem compose_eq (s : Service) (stage : String) :
    s.compose stage = (do
      let custom ← Section.custom.compose (s.get? .custom) stage
      let environment ← Section.environment.compose (s.get? .environment) stage
      return ⟨custom, environment⟩) := rfl

/-- Composing a service fails with the first failure along its paths. -/
theorem outcome_compose_eq_error_iff (s : Service) (stage : String) (e : Failure) :
    outcome files (s.compose stage) = .error e
      ↔ files.firstFailure (s.paths files stage) = some e := by
  rw [compose_eq, outcome_bind, paths, files.firstFailure_append]
  cases hc : outcome files (Section.custom.compose (s.get? .custom) stage) with
  | error e' =>
    rw [(s.outcome_section_eq_error_iff files .custom stage e').mp hc, Option.some_or]
    simp [bind, Except.bind]
  | ok custom =>
    rw [s.firstFailure_eq_none_of_section files hc, Option.none_or,
      ← s.outcome_section_eq_error_iff files .environment stage e]
    -- the custom section is composed, so all is up to the environment
    show outcome files (_ >>= _) = _ ↔ _
    rw [outcome_bind]
    cases outcome files (Section.environment.compose (s.get? .environment) stage) <;>
      simp [bind, Except.bind]

/-- Composing a service reads along its paths. -/
theorem reads_compose (s : Service) (stage : String) :
    (calls files (s.compose stage)).filter Call.isRead = files.reads (s.paths files stage) := by
  rw [compose_eq, Composing.calls_bind, List.filter_append, reads_section, paths,
    files.reads_append]
  cases hc : outcome files (Section.custom.compose (s.get? .custom) stage) with
  | error e => rw [(s.outcome_section_eq_error_iff files .custom stage e).mp hc]; rfl
  | ok custom =>
    rw [s.firstFailure_eq_none_of_section files hc]
    simp only
    rw [Composing.calls_bind, List.filter_append, reads_section]
    cases outcome files (Section.environment.compose (s.get? .environment) stage) <;> simp

variable {files}

theorem stopsAtFailure_compose (s : Service) (stage : String) :
    StopsAtFailure files (s.compose stage) :=
  (Compose.stopsAtFailure_value _ _ stage _).bind fun _ =>
    (Compose.stopsAtFailure_value _ _ stage _).bind fun _ => stopsAtFailure_pure _

end Service

end StageVars

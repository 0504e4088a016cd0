import StageVars.Proofs.Compose.Values
import StageVars.Session
/-!
# StageVars.Proofs.Session.Start -- starting a session, or failing to

A session starts when both sections are composed. If a file cannot be read, the start
fails with that file's failure, asks nothing more, and leaves the service as it was.

* `result_start`, `calls_start`: what a start comes to, and what it asks.
* `ensures_log_start`, `ensures_merged_start`, `ensures_sections_start`: what holds of a start
  whatever is answered.
* `start_all_or_nothing`: failures and where they come from.
-/

namespace StageVars

namespace Session

open Composing

variable (files : FileView) (s : Service) (asked : Option String)

/-- A start asks what composing the service asks, and nothing else. -/
theorem calls_start :
    (start s asked).calls files = Composing.calls files (s.compose (s.stageFor asked)) := by
  rw [start, Lookup.calls_bind]
  cases (s.compose (s.stageFor asked)).run.result files <;>
    exact List.append_nil _

/-- What a start comes to, by what composing the service comes to. -/
theorem result_start :
    (start s asked).result files
      = match outcome files (s.compose (s.stageFor asked)) with
        | .error e => ⟨s, startLog s, .error e⟩
        | .ok changes => ⟨s.apply changes, startLog s,
            .ok ⟨s.stageFor asked, Variables.ofService (s.apply changes)⟩⟩ := by
  rw [start, Lookup.result_bind, outcome]
  cases (s.compose (s.stageFor asked)).run.result files <;> rfl

theorem outcome_start_eq_error_iff (e : Failure) :
    ((start s asked).result files).outcome = .error e
      ↔ outcome files (s.compose (s.stageFor asked)) = .error e := by
  rw [result_start]
  cases outcome files (s.compose (s.stageFor asked)) <;> simp

/-! ## Whatever is answered -/

variable {P : Value → Prop}

/-- What holds of a failed start and of one that has composed both sections holds of a start. -/
theorem ensures_start {Q : Start → Prop} {R : Changes → Prop}
    (hcompose : (s.compose (s.stageFor asked)).Ensures P R)
    (herror : ∀ e, Q ⟨s, startLog s, .error e⟩)
    (hok : ∀ c, R c → Q ⟨s.apply c, startLog s,
      .ok ⟨s.stageFor asked, Variables.ofService (s.apply c)⟩⟩) : (start s asked).Ensures P Q := by
  refine Lookup.ensures_bind hcompose fun outcome houtcome => ?_
  cases outcome with
  | error e => exact Lookup.ensures_pure (herror e)
  | ok c => exact Lookup.ensures_pure (hok c (houtcome c rfl))

theorem ensures_compose_true (stage : String) :
    (s.compose stage).Ensures P fun _ => True :=
  Lookup.ensures_of_forall (fun _ _ _ => trivial) _

/-- What is to be said about the plugins is all that a start logs. -/
theorem ensures_log_start : (start s asked).Ensures P fun start => start.log = startLog s :=
  ensures_start s asked (ensures_compose_true s _) (fun _ => rfl) fun _ _ => rfl

/-- A session keeps the values of the service on which it has started. -/
theorem ensures_merged_start : (start s asked).Ensures P fun start =>
    ∀ session, start.outcome = .ok session → session.merged = Variables.ofService start.service := by
  refine ensures_start s asked (ensures_compose_true s _) (fun _ => nofun) fun c _ => ?_
  rintro _ ⟨⟩
  rfl

/-- The sections of a service on which a session has started come from its document and files. -/
theorem ensures_sections_start (hP : Value.Hereditary P) (h : P s.document) :
    (start s asked).Ensures P fun start =>
      ∀ session, start.outcome = .ok session → ∀ sec, ∀ v ∈ start.service.get? sec, P v :=
  ensures_start s asked (Service.ensures_compose hP h _) (fun _ => nofun) fun _ hc _ _ =>
    Service.hereditary_apply hP h hc

theorem log_start :
    ((start s asked).result files).log
      = (Plugin.orderWarning s.plugins).toList.map (Plugin.logger.line ∘ Logger.warning) := by
  have hlog : ((start s asked).result files).log = startLog s :=
    (ensures_log_start s asked).result (P := fun _ => True) fun _ _ _ => trivial
  rw [hlog, startLog]
  cases Plugin.orderWarning s.plugins <;> rfl

/-! ## All or nothing -/

/-- **A start is all or nothing.** It reads along the paths of both sections, up to and
with the first that fails. It fails exactly when one of these reads fails, and with the
failure of the first that does, which is its last call of any kind. The service is then
what it was before, and whatever happens the log gains the warning about the plugins, if
one is due, and nothing else. -/
theorem start_all_or_nothing :
    ((start s asked).calls files).filter Call.isRead
        = files.reads (s.paths files (s.stageFor asked))
    ∧ ((∃ e, ((start s asked).result files).outcome = .error e)
        ↔ ∃ call ∈ (start s asked).calls files, call.failure?.isSome)
    ∧ (∀ e, ((start s asked).result files).outcome = .error e
        ↔ files.firstFailure (s.paths files (s.stageFor asked)) = some e)
    ∧ (∀ e, ((start s asked).result files).outcome = .error e
        ↔ ∃ before path, (start s asked).calls files = before ++ [.read path (.error e)]
          ∧ ∀ call ∈ before, call.failure? = none)
    ∧ (∀ e, ((start s asked).result files).outcome = .error e →
        ((start s asked).result files).service = s)
    ∧ ((start s asked).result files).log
        = (Plugin.orderWarning s.plugins).toList.map (Plugin.logger.line ∘ Logger.warning) := by
  have hstops := @Service.stopsAtFailure_compose files s (s.stageFor asked)
  simp only [calls_start, outcome_start_eq_error_iff]
  refine ⟨s.reads_compose files _, hstops.exists_error_iff, s.outcome_compose_eq_error_iff files _,
    hstops.outcome_eq_error_iff, ?_, log_start files s asked⟩
  intro e he
  rw [result_start, he]

end Session

end StageVars

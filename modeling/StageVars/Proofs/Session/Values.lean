import StageVars.Proofs.Compose.Values
import StageVars.Proofs.Session.Start
/-!
# StageVars.Proofs.Session.Values -- what a session and its service hold

Composing a service says what becomes of each section. What the session keeps and what is read
from the service afterwards have both gone through the document, whose root and provider may have
had to give way to objects. They are nevertheless what the changes say, section by section, and
the sections do not depend on each other.

* `outcome_start_eq_ok_iff`: when a start succeeds, and with which session.
* `kept_or_object`: what becomes of a section.
* `start_values`: session, service and changes agree.
-/

namespace StageVars

/-- The value of a section among those of both. -/
def Variables.get (v : Variables) : Section → Option Value
  | .custom => v.custom
  | .environment => v.environment

theorem Variables.get_ofService (s : Service) (sec : Section) :
    (Variables.ofService s).get sec = s.get? sec := by
  cases sec <;> rfl

/-- A change of one section does not change the stage. -/
theorem Service.stageFor_change (s : Service) (change : Change) (asked : Option String) :
    (s.change .custom change).stageFor asked = s.stageFor asked :=
  s.stageFor_apply ⟨change, .kept⟩ asked

/-- A section is kept as it is, or replaced by an object. -/
theorem Section.kept_or_object {files : FileView} {sec : Section} {literal : Option Value}
    {stage : String} {change : Change}
    (h : Composing.outcome files (sec.compose literal stage) = .ok change) :
    (change = .kept ∧ change.after literal = literal)
      ∨ ∃ fields, change = .replaced (.object fields)
        ∧ change.after literal = some (.object fields) := by
  cases change with
  | kept => exact Or.inl ⟨rfl, rfl⟩
  | replaced v =>
    obtain ⟨fields, rfl⟩ := v.isObject_iff.mp (Compose.isObject_of_replaced files h)
    exact Or.inr ⟨fields, rfl, rfl⟩

namespace Session

open Composing

variable {files : FileView} {s : Service} {asked : Option String}

/-- A start succeeds when its service is composed, and keeps the values of the service after the
changes. -/
theorem outcome_start_eq_ok_iff {session : Session} :
    ((start s asked).result files).outcome = .ok session
      ↔ ∃ c, outcome files (s.compose (s.stageFor asked)) = .ok c
        ∧ session = ⟨s.stageFor asked, Variables.ofService (s.apply c)⟩ := by
  rw [result_start]
  cases outcome files (s.compose (s.stageFor asked)) <;> simp [eq_comm]

theorem service_start {c : Changes} (h : outcome files (s.compose (s.stageFor asked)) = .ok c) :
    ((start s asked).result files).service = s.apply c := by
  rw [result_start, h]

/-- What the session of a start keeps of a section is what the section was composed to. -/
theorem merged_get_of_start {session : Session}
    (h : ((start s asked).result files).outcome = .ok session) {sec : Section} {change : Change}
    (hchange : outcome files (sec.compose (s.get? sec) (s.stageFor asked)) = .ok change) :
    session.merged.get sec = change.after (s.get? sec) := by
  obtain ⟨c, hcompose, rfl⟩ := outcome_start_eq_ok_iff.mp h
  have hsec := (s.outcome_compose_eq_ok_iff _ c).mp hcompose sec
  rw [hchange] at hsec
  rw [Variables.get_ofService, s.get?_apply, Except.ok.inj hsec]

/-- **Session, service and changes agree.** If a start succeeds, the service is composed for the
session's stage, and of each section the session keeps, the service holds and a view of the service
shows what the change of that section makes of what it held before: just that if nothing applied,
and else an object. Whatever is written to the custom section first, the environment is composed
to the same, and a start with it, if it succeeds, keeps the same. -/
theorem start_values {session : Session}
    (h : ((start s asked).result files).outcome = .ok session) :
    ∃ c, session.stage = s.stageFor asked ∧ outcome files (s.compose session.stage) = .ok c
      ∧ (∀ sec, outcome files (sec.compose (s.get? sec) session.stage) = .ok (c.get sec)
        ∧ session.merged.get sec = (c.get sec).after (s.get? sec)
        ∧ ((start s asked).result files).service.get? sec = (c.get sec).after (s.get? sec)
        ∧ (Variables.ofService ((start s asked).result files).service).get sec
          = (c.get sec).after (s.get? sec)
        ∧ ((c.get sec = .kept ∧ (c.get sec).after (s.get? sec) = s.get? sec)
          ∨ ∃ fields, c.get sec = .replaced (.object fields)
            ∧ (c.get sec).after (s.get? sec) = some (.object fields)))
      ∧ ∀ change,
        outcome files (Section.environment.compose ((s.change .custom change).get? .environment)
          ((s.change .custom change).stageFor asked)) = .ok c.environment
        ∧ ((s.change .custom change).change .environment c.environment).get? .environment
          = session.merged.environment
        ∧ ∀ session',
          ((start (s.change .custom change) asked).result files).outcome = .ok session' →
          session'.merged.environment = session.merged.environment := by
  obtain ⟨c, hcompose, rfl⟩ := outcome_start_eq_ok_iff.mp h
  have hsections := (s.outcome_compose_eq_ok_iff _ c).mp hcompose
  have hservice (sec : Section) :
      ((start s asked).result files).service.get? sec = (c.get sec).after (s.get? sec) := by
    rw [service_start hcompose, s.get?_apply]
  refine ⟨c, rfl, hcompose, fun sec => ?_, fun change => ?_⟩
  · exact ⟨hsections sec, merged_get_of_start h (hsections sec), hservice sec,
      (Variables.get_ofService _ sec).trans (hservice sec), Section.kept_or_object (hsections sec)⟩
  · -- a write to the custom section changes neither the environment nor the stage
    have hsame : (s.change .custom change).get? .environment = s.get? .environment :=
      s.get?_change_of_ne (by decide) change
    have hcomposed : outcome files (Section.environment.compose
        ((s.change .custom change).get? .environment) ((s.change .custom change).stageFor asked))
          = .ok c.environment := by
      rw [hsame, s.stageFor_change]
      exact hsections .environment
    have hmerged := merged_get_of_start h (hsections .environment)
    refine ⟨hcomposed, ?_, fun session' h' => ?_⟩
    · rw [Service.get?_change_self, hsame]
      exact hmerged.symm
    · have hmerged' := merged_get_of_start h' hcomposed
      rw [hsame] at hmerged'
      exact hmerged'.trans hmerged.symm

/-- A file of the environment for a stage, and none of the custom section. -/
def environmentOnly : Fields := [("./environment.dev.json", .object [("A", .null)])]

/-- A service with null for its custom section and a provider that is no object. -/
def nulled : Service := ⟨.object [("provider", .string "aws"), ("custom", .null)]⟩

/-- The null is kept as null, and the provider gives way to an object for the environment. -/
theorem start_values_nulled :
    ∃ session,
      ((start nulled none).result (FileView.ofFields environmentOnly)).outcome = .ok session
      ∧ session.merged.get .custom = some .null
      ∧ session.merged.get .environment = some (.object [("A", .null)])
      ∧ ((start nulled none).result (FileView.ofFields environmentOnly)).service.get? .environment
        = session.merged.get .environment := by
  have hstart : ((start nulled none).result (FileView.ofFields environmentOnly)).outcome
      = .ok ⟨"dev", ⟨some .null, some (.object [("A", .null)])⟩⟩ := by decide
  obtain ⟨c, -, -, hsections, -⟩ := start_values hstart
  obtain ⟨-, hmerged, hservice, -⟩ := hsections .environment
  exact ⟨_, hstart, rfl, rfl, hservice.trans hmerged.symm⟩

end Session

end StageVars

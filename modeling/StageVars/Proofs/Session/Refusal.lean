import StageVars.Proofs.Files.Modules
import StageVars.Proofs.Lookup.Agreement
import StageVars.Proofs.Session.Start
/-!
# StageVars.Proofs.Session.Refusal -- module sources while modules are not allowed

A module source takes part in every search, and there it ends: as soon as one is read, whatever
reads it fails and names it. What it contains makes no difference to anything.

* `FileView.answers_of_mem_calls`: the answers in a run are those of the files.
* `FileView.firstFailure_eq_some`: the first failure along some paths.
* `modules_inert`: loading, composing and starting with module sources around.
-/

namespace StageVars

/-- The answers in a run are those of the files. -/
theorem FileView.answers_of_mem_calls {files : FileView} {α : Type} {x : Lookup α} {call : Call}
    (h : call ∈ x.calls files) : files.Answers call := by
  induction x with
  | done a => cases h
  | probe path next ih =>
    rcases List.mem_cons.mp h with rfl | hlater
    · rfl
    · exact ih _ hlater
  | read path next ih =>
    rcases List.mem_cons.mp h with rfl | hlater
    · rfl
    · exact ih _ hlater

/-- The first failure is that of a path before which none fails. -/
theorem FileView.firstFailure_eq_some {files : FileView} {path : String} {e : Failure}
    (h : files.content path = .error e) {before : List String}
    (hbefore : files.firstFailure before = none) (after : List String) :
    files.firstFailure (before ++ path :: after) = some e := by
  rw [files.firstFailure_append, hbefore, Option.none_or, firstFailure, List.findSome?_cons,
    (files.failureAt_eq_some_iff path e).mpr h]

namespace Service

open Composing

variable {files : FileView}

theorem outcome_load_of_error {path : String} {e : Failure} (h : files.content path = .error e) :
    outcome files (load path) = .error e := by
  rw [load, outcome_bind, outcome_read, h]
  rfl

/-- A service document is looked for and then loaded. -/
theorem outcome_discover_of_locate {path : String}
    (h : (Lookup.locate (some documentStem)).result files = some path) (shownRoot : String) :
    outcome files (discover shownRoot) = outcome files (load path) := by
  show outcome files (monadLift (Lookup.locate (some documentStem)) >>= _) = _
  rw [outcome_bind, outcome_lift, h]
  rfl

end Service

/-- The files of a service that does not allow modules. -/
def Directory.refusing (d : Directory) (root : String) : FileView :=
  (⟨d, root, none⟩ : ServiceFiles).view

namespace Session

open Composing

variable {d d' : Directory}

/-- What reads a module source fails and names it. -/
theorem content_refusing {root path : String} (hmodule : Path.IsModule path)
    (hpresent : (d.refusing root).present path = true) :
    (d.refusing root).content path = .error (.moduleRefused path) := by
  have hcontent := ServiceFiles.content_of_isModule ⟨d, root, none⟩ rfl hmodule
  exact hcontent.trans (if_pos hpresent)

/-- No value comes from a module source. -/
theorem not_isModule_of_read {root path : String} {v : Value} {α : Type} {x : Lookup α}
    (h : .read path (.ok (some v)) ∈ x.calls (d.refusing root)) : ¬ Path.IsModule path := by
  intro hmodule
  have hanswer : (d.refusing root).content path = .ok (some v) := FileView.answers_of_mem_calls h
  have hcontent := ServiceFiles.content_of_isModule ⟨d, root, none⟩ rfl hmodule
  rw [show (d.refusing root).content path = _ from hcontent] at hanswer
  split at hanswer <;> cases hanswer

/-- **Module sources do nothing while modules are not allowed.** With two directories that
differ only in what module sources contain, reading, loading, finding a service document,
composing a value or a service and starting a session come to the same. None of them, nor any
other lookup, gets a value from a module source. A module source that is there makes all that
reads it fail with a refusal that names it: loading it, finding it first among the service
documents, and composing or starting with it among the paths to read, unless a path before it
has failed. -/
theorem modules_inert (h : d.SameBesideModules d') (root : String) :
    (∀ path, (d'.refusing root).present path = (d.refusing root).present path
      ∧ (d'.refusing root).content path = (d.refusing root).content path)
    ∧ (∀ path, outcome (d'.refusing root) (Service.load path)
        = outcome (d.refusing root) (Service.load path))
    ∧ (∀ shownRoot, outcome (d'.refusing root) (Service.discover shownRoot)
        = outcome (d.refusing root) (Service.discover shownRoot))
    ∧ (∀ literal stem stage strategy,
        outcome (d'.refusing root) (Compose.value literal stem stage strategy)
          = outcome (d.refusing root) (Compose.value literal stem stage strategy))
    ∧ (∀ (s : Service) stage, outcome (d'.refusing root) (s.compose stage)
        = outcome (d.refusing root) (s.compose stage))
    ∧ (∀ s asked, (start s asked).result (d'.refusing root)
        = (start s asked).result (d.refusing root))
    ∧ (∀ {α : Type} (x : Lookup α) path v,
        .read path (.ok (some v)) ∈ x.calls (d.refusing root) → ¬ Path.IsModule path)
    ∧ ∀ path, Path.IsModule path → (d.refusing root).present path = true →
        (d.refusing root).content path = .error (.moduleRefused path)
        ∧ outcome (d.refusing root) (Service.load path) = .error (.moduleRefused path)
        ∧ (∀ shownRoot,
            (Lookup.locate (some Service.documentStem)).result (d.refusing root) = some path →
            outcome (d.refusing root) (Service.discover shownRoot)
              = .error (.moduleRefused path))
        ∧ ∀ before after, (d.refusing root).firstFailure before = none →
            (∀ literal stem stage strategy,
              Compose.pathsOf (d.refusing root) literal stem stage = before ++ path :: after →
              outcome (d.refusing root) (Compose.value literal stem stage strategy)
                = .error (.moduleRefused path))
            ∧ (∀ (s : Service) stage,
              s.paths (d.refusing root) stage = before ++ path :: after →
              outcome (d.refusing root) (s.compose stage) = .error (.moduleRefused path))
            ∧ ∀ (s : Service) asked,
              s.paths (d.refusing root) (s.stageFor asked) = before ++ path :: after →
              ((start s asked).result (d.refusing root)).outcome
                = .error (.moduleRefused path) := by
  have hview : d'.refusing root = d.refusing root :=
    ServiceFiles.view_eq_of_sameBesideModules h root
  rw [hview]
  -- the two runs ask one and the same view; what is left is about refusals
  refine ⟨fun _ => ⟨rfl, rfl⟩, fun _ => rfl, fun _ => rfl, fun _ _ _ _ => rfl, fun _ _ => rfl,
    fun _ _ => rfl, fun _ _ _ => not_isModule_of_read, ?_⟩
  intro path hmodule hpresent
  have hcontent := content_refusing hmodule hpresent
  have hload := Service.outcome_load_of_error hcontent
  refine ⟨hcontent, hload, ?_, ?_⟩
  · intro shownRoot hlocate
    rw [Service.outcome_discover_of_locate hlocate, hload]
  · intro before after hbefore
    have hfirst := FileView.firstFailure_eq_some hcontent hbefore after
    refine ⟨?_, ?_, ?_⟩
    · intro literal stem stage strategy hpaths
      rw [Compose.outcome_value_eq_error_iff, hpaths, hfirst]
    · intro s stage hpaths
      rw [Service.outcome_compose_eq_error_iff, hpaths, hfirst]
    · intro s asked hpaths
      rw [outcome_start_eq_error_iff, Service.outcome_compose_eq_error_iff, hpaths, hfirst]

/-- A directory with a base file and a module source for a stage. -/
def modular : Directory :=
  ⟨[(["variables.json"], .file (some "\x7b\x7d")),
    (["variables.dev.js"], .file (some "module.exports = 1"))], []⟩

/-- The module source is reached behind the base file and refused, whatever it contains. -/
theorem modules_inert_staged :
    modular.SameBesideModules (modular.insert ["variables.dev.js"] (.file none))
    ∧ ((start ⟨.empty⟩ none).result (modular.refusing ".")).outcome
      = .error (.moduleRefused "./variables.dev.js")
    ∧ (start ⟨.empty⟩ none).result
        ((modular.insert ["variables.dev.js"] (.file none)).refusing ".")
      = (start ⟨.empty⟩ none).result (modular.refusing ".") := by
  have hfind : modular.find? ["variables.dev.js"] = some (.file (some "module.exports = 1")) := by
    decide +kernel
  have hsame : modular.SameBesideModules (modular.insert ["variables.dev.js"] (.file none)) :=
    Directory.sameBesideModules_insert ⟨"variables.dev.js", rfl, "variables.dev", by decide⟩
      hfind none
  have hmodule : Path.IsModule "./variables.dev.js" := ⟨"./variables.dev", by decide⟩
  have hpresent : (modular.refusing ".").present "./variables.dev.js" = true := by decide +kernel
  have hpaths : Service.paths (modular.refusing ".") ⟨.empty⟩ "dev"
      = ["./variables.json"] ++ "./variables.dev.js" :: [] := by decide +kernel
  have hbefore : (modular.refusing ".").firstFailure ["./variables.json"] = none := by
    decide +kernel
  obtain ⟨-, -, -, -, -, hstart, -, hrefused⟩ := modules_inert hsame "."
  obtain ⟨-, -, -, hbehind⟩ := hrefused _ hmodule hpresent
  have houtcome := (hbehind _ _ hbefore).2.2 ⟨.empty⟩ none hpaths
  exact ⟨hsame, houtcome, hstart _ _⟩

end Session

end StageVars

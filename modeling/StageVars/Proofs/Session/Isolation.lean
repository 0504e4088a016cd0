import StageVars.Proofs.Files.Contents
import StageVars.Proofs.Lookup.Agreement
import StageVars.Proofs.Session.Start
/-!
# StageVars.Proofs.Session.Isolation -- which files a session can depend on

A session depends on the files of its own stage and on no others: for a section that is a
reference on two of them, for any other on the first file of each of its two stems, and on
which candidates of these stems are there.

* `answers_calls_value`: views that agree on a value's files answer all its questions alike.
* `start_isolated`: a start with views that agree on the files of both sections.
-/

namespace StageVars

namespace FileView

/-- Two views agree on the files of a value for a stage. For a reference these are its own
path and the path of the stage beside it; for any other value they are those of the stem
and those of the stem for the stage. -/
def AgreeFor (files files' : FileView) (literal : Option Value) (stem stage : String) : Prop :=
  match literal.bind Reference.ofValue? with
  | some r =>
    files'.content r.path = files.content r.path
      ∧ files'.content (r.sibling stage) = files.content (r.sibling stage)
  | none =>
    files.AgreeOn files' ("./" ++ stem) ∧ files.AgreeOn files' ("./" ++ stem ++ "." ++ stage)

theorem agreeFor_reference_iff {files files' : FileView} {literal : Option Value} {r : Reference}
    (h : literal.bind Reference.ofValue? = some r) (stem stage : String) :
    files.AgreeFor files' literal stem stage
      ↔ files'.content r.path = files.content r.path
        ∧ files'.content (r.sibling stage) = files.content (r.sibling stage) := by
  rw [AgreeFor, h]

end FileView

namespace Compose

open Composing

variable {files files' : FileView}

theorem answers_calls_withFiles {literal : Option Value} {stem stage : String}
    (hbase : files.AgreeOn files' ("./" ++ stem))
    (hstaged : files.AgreeOn files' ("./" ++ stem ++ "." ++ stage)) (strategy : Merge.Strategy)
    {call : Call} (hcall : call ∈ calls files (withFiles literal stem stage strategy)) :
    files'.Answers call := by
  rw [(composesFrom_withFiles files literal stem stage strategy).1] at hcall
  rcases List.mem_append.mp hcall with hprobe | hread
  · rcases List.mem_append.mp hprobe with hprobe | hprobe
    · exact FileView.answers_of_mem_probes hbase.1 hprobe
    · exact FileView.answers_of_mem_probes hstaged.1 hprobe
  · refine FileView.answers_of_mem_reads ?_ hread
    intro path hpath
    rcases List.mem_append.mp hpath with hpath | hpath
    · exact hbase.2 path (Option.mem_toList.mp hpath)
    · exact hstaged.2 path (Option.mem_toList.mp hpath)

/-- Views that agree on the files of a value answer all questions about it alike. -/
theorem answers_calls_value {literal : Option Value} {stem stage : String}
    (h : files.AgreeFor files' literal stem stage) (strategy : Merge.Strategy) {call : Call}
    (hcall : call ∈ calls files (value literal stem stage strategy)) : files'.Answers call := by
  match literal with
  | some (.bool _) | some (.number _) => cases hcall
  | some (.string text) =>
    change call ∈ calls files (referenced text stage strategy) at hcall
    cases hparse : Reference.parse? text with
    | none =>
      rw [referenced, hparse] at hcall
      cases hcall
    | some r =>
      have hvalue : (some (Value.string text)).bind Reference.ofValue? = some r := hparse
      rw [FileView.agreeFor_reference_iff hvalue] at h
      rw [calls_referenced files hparse] at hcall
      refine FileView.answers_of_mem_reads ?_ hcall
      simpa using h
  | none | some .null | some (.object _) | some (.array _) =>
    exact answers_calls_withFiles h.1 h.2 strategy hcall

end Compose

namespace Service

open Composing

variable {files : FileView}

/-- Composing a service asks what composing one of its sections asks. -/
theorem exists_section_of_mem_calls {s : Service} {stage : String} {call : Call}
    (h : call ∈ calls files (s.compose stage)) :
    ∃ sec : Section, call ∈ calls files (sec.compose (s.get? sec) stage) := by
  rw [compose_eq, Composing.calls_bind] at h
  rcases List.mem_append.mp h with hcustom | hrest
  · exact ⟨.custom, hcustom⟩
  · cases houtcome : outcome files (Section.custom.compose (s.get? .custom) stage) with
    | error e =>
      rw [houtcome] at hrest
      cases hrest
    | ok custom =>
      rw [houtcome] at hrest
      simp only [Composing.calls_bind] at hrest
      rcases List.mem_append.mp hrest with henvironment | hnone
      · exact ⟨.environment, henvironment⟩
      · -- nothing is asked when both sections are composed
        cases houtcome : outcome files (Section.environment.compose (s.get? .environment) stage) <;>
          · rw [houtcome] at hnone
            cases hnone

end Service

namespace Session

variable {files files' : FileView} {s : Service} {asked : Option String}

/-- **A session depends on the files of its stage only.** Two views that agree, for each
section and the stage to compose for, on the files of what the section holds, lead to the
same start: the same service, the same lines for the operator, and the same session or the
same failure, with the same questions on the way. For a section that is a reference the
views may differ on all files of its stems; for any other, on all that the first candidates
hide; and always on the files of other stages. -/
theorem start_isolated
    (h : ∀ sec : Section, files.AgreeFor files' (s.get? sec) sec.stem (s.stageFor asked)) :
    (start s asked).result files' = (start s asked).result files
      ∧ (start s asked).calls files' = (start s asked).calls files := by
  refine Lookup.run_eq_of_answers fun call hcall => ?_
  rw [calls_start] at hcall
  obtain ⟨sec, hsection⟩ := Service.exists_section_of_mem_calls hcall
  exact Compose.answers_calls_value (h sec) sec.strategy hsection

/-- A service with a reference in one section and an object in the other. -/
def referring : Service :=
  ⟨.object
    [("custom", .string "$\x7bfile(./c/vars.json)\x7d"),
     ("provider", .object [("environment", .object [("LOG", .string "warn")])])]⟩

/-- Files of both sections for one stage, with a file that hides another of its stem. -/
def stageFiles : Fields :=
  [("./c/vars.json", .object [("a", .null)]),
   ("./environment.yml", .object [("LOG", .string "debug")]),
   ("./environment.json", .object [("LOG", .string "hidden")])]

/-- The same files but for what is hidden, and with files of other stages and of the stem
that the reference stands in for. -/
def crowdedFiles : Fields :=
  [("./variables.yml", .object [("a", .bool true)]),
   ("./variables.dev.yml", .number (.integer 1)),
   ("./c/vars.json", .object [("a", .null)]),
   ("./c/vars.prod.json", .object [("a", .bool false)]),
   ("./environment.yml", .object [("LOG", .string "debug")]),
   ("./environment.json", .array []),
   ("./environment.prod.yml", .object [("LOG", .string "error")])]

/-- The files that there are more of make no difference. -/
theorem start_isolated_crowded :
    (∀ sec : Section, (FileView.ofFields stageFiles).AgreeFor (FileView.ofFields crowdedFiles)
      (referring.get? sec) sec.stem (referring.stageFor none))
    ∧ (start referring none).result (FileView.ofFields crowdedFiles)
      = (start referring none).result (FileView.ofFields stageFiles)
    ∧ ((start referring none).result (FileView.ofFields stageFiles)).service
      = ⟨.object
        [("custom", .object [("a", .null)]),
         ("provider", .object [("environment", .object [("LOG", .string "debug")])])]⟩ := by
  have hagree : ∀ sec : Section,
      (FileView.ofFields stageFiles).AgreeFor (FileView.ofFields crowdedFiles)
        (referring.get? sec) sec.stem (referring.stageFor none) := by
    intro sec
    cases sec with
    | custom =>
      have hparse : (referring.get? .custom).bind Reference.ofValue?
          = some ⟨"./c/vars.json", some "./c/", "vars.json", "vars", .json, none⟩ := by
        decide +kernel
      have hpath : Fields.get? crowdedFiles "./c/vars.json"
          = Fields.get? stageFiles "./c/vars.json" := by decide +kernel
      have hsibling : Fields.get? crowdedFiles "./c/vars.dev.json"
          = Fields.get? stageFiles "./c/vars.dev.json" := by decide +kernel
      rw [FileView.agreeFor_reference_iff hparse]
      exact ⟨congrArg Except.ok hpath, congrArg Except.ok hsibling⟩
    | environment =>
      have hbase : (FileView.ofFields stageFiles).firstPresent (candidates "./environment")
          = some "./environment.yml" := by decide +kernel
      have hstaged : (FileView.ofFields stageFiles).firstPresent (candidates "./environment.dev")
          = none := by decide +kernel
      refine ⟨⟨by decide +kernel, fun path hpath => ?_⟩, by decide +kernel, fun path hpath => ?_⟩
      · obtain rfl := Option.some.inj (hbase.symm.trans hpath)
        rfl
      · cases hstaged.symm.trans hpath
  exact ⟨hagree, (start_isolated hagree).1, by decide +kernel⟩

end Session

end StageVars

import StageVars.Proofs.Session.Isolation
import StageVars.Proofs.Session.Selection
/-!
# StageVars.Proofs.Session.Stage -- the stage that a session is started for

An empty stage that is asked for is as good as none. An empty stage that the provider declares is
not: if none is asked for, the session is started for it, and the files of its stage are those with
nothing between two points. In all other cases the stage is one that was named, or the fallback,
and never empty.

* `stageFor_eq_empty_iff`, `stageFor_eq_namedStage_iff`: when the stage is the empty one.
* `Section.names`, `exists_name_of_mem_calls_start`: what a start asks about.
* `stage_named_iff`: the stage of a start, and of the files that it asks about.
-/

namespace StageVars

/-! ## Choosing the stage -/

namespace Service

variable (s : Service) {asked : Option String}

/-- No stage is asked for, or the empty one. -/
def Unasked (asked : Option String) : Prop := asked = none ∨ asked = some ""

/-- The stage to compose for if no empty one counts: the one asked for, or else the declared one,
or else the fallback. -/
def namedStage (asked : Option String) : String :=
  ((asked.filter (· ≠ "")).or (s.declaredStage.filter (· ≠ ""))).getD fallbackStage

/-- No stage is asked for, and the provider declares the empty one. -/
def LeavesStageEmpty (asked : Option String) : Prop :=
  Unasked asked ∧ s.provider? "stage" = some (.string "")

theorem declaredStage_eq_some_iff (stage : String) :
    s.declaredStage = some stage ↔ s.provider? "stage" = some (.string stage) := by
  rw [declaredStage, Option.bind_eq_some_iff]
  constructor
  · rintro ⟨v, hv, hstage⟩
    cases v <;> cases hstage
    exact hv
  · intro h
    exact ⟨_, h, rfl⟩

theorem stageFor_of_unasked (h : Unasked asked) :
    s.stageFor asked = s.declaredStage.getD fallbackStage := by
  rcases h with rfl | rfl <;> rfl

theorem namedStage_of_unasked (h : Unasked asked) :
    s.namedStage asked = (s.declaredStage.filter (· ≠ "")).getD fallbackStage := by
  rcases h with rfl | rfl <;> simp [namedStage, Option.filter]

theorem stageFor_of_asked {stage : String} (h : stage ≠ "") : s.stageFor (some stage) = stage := by
  simp [stageFor, Option.filter, h]

theorem namedStage_of_asked {stage : String} (h : stage ≠ "") :
    s.namedStage (some stage) = stage := by
  simp [namedStage, Option.filter, h]

theorem unasked_or_asked (asked : Option String) :
    Unasked asked ∨ ∃ stage, asked = some stage ∧ stage ≠ "" := by
  cases asked with
  | none => exact Or.inl (Or.inl rfl)
  | some stage =>
    by_cases h : stage = ""
    · exact Or.inl (Or.inr (congrArg some h))
    · exact Or.inr ⟨stage, rfl, h⟩

theorem namedStage_ne_empty (asked : Option String) : s.namedStage asked ≠ "" := by
  rcases unasked_or_asked asked with h | ⟨stage, rfl, h⟩
  · rw [s.namedStage_of_unasked h]
    cases hdeclared : s.declaredStage.filter (· ≠ "") with
    | none => decide
    | some stage => simpa using (Option.filter_eq_some_iff.mp hdeclared).2
  · rwa [s.namedStage_of_asked h]

/-- The stage is the empty one exactly if it is declared and none is asked for. -/
theorem stageFor_eq_empty_iff (asked : Option String) :
    s.stageFor asked = "" ↔ s.LeavesStageEmpty asked := by
  rw [LeavesStageEmpty, ← declaredStage_eq_some_iff]
  rcases unasked_or_asked asked with h | ⟨stage, rfl, h⟩
  · rw [s.stageFor_of_unasked h]
    cases s.declaredStage with
    | none => exact iff_of_false (by decide) nofun
    | some stage => simp [h]
  · rw [s.stageFor_of_asked h]
    refine iff_of_false h fun hempty => ?_
    simp [Unasked, h] at hempty

/-- Any other stage is one that was named, or the fallback. -/
theorem stageFor_eq_namedStage_iff (asked : Option String) :
    s.stageFor asked = s.namedStage asked ↔ ¬ s.LeavesStageEmpty asked := by
  rw [← stageFor_eq_empty_iff]
  constructor
  · intro h
    rw [h]
    exact s.namedStage_ne_empty asked
  · intro h
    rcases unasked_or_asked asked with hunasked | ⟨stage, rfl, hstage⟩
    · rw [s.stageFor_of_unasked hunasked] at h ⊢
      rw [s.namedStage_of_unasked hunasked]
      cases hdeclared : s.declaredStage with
      | none => rfl
      | some stage =>
        rw [hdeclared] at h
        rw [Option.filter_some_pos (by simpa using h)]
    · rw [s.stageFor_of_asked hstage, s.namedStage_of_asked hstage]

end Service

/-! ## The files of a stage -/

/-- The names that the files of a value have, each with an extension: the one name of a reference,
or that of the stem with all extensions. -/
def Compose.names (literal : Option Value) (stem : String) : List (String × Extension) :=
  match literal.bind Reference.ofValue? with
  | some r => [(r.directory.getD "" ++ r.stem, r.extension)]
  | none => Extension.all.map ("./" ++ stem, ·)

/-- The question is about a file of a name, with or without a stage. -/
def Call.IsFor (stage : String) (name : String × Extension) (call : Call) : Prop :=
  call.path = name.1 ++ "." ++ name.2.name
    ∨ call.path = name.1 ++ "." ++ stage ++ "." ++ name.2.name

theorem FileView.path_mem_of_mem_probes {files : FileView} {paths : List String} {call : Call}
    (h : call ∈ files.probes paths) : call.path ∈ paths := by
  rcases List.mem_append.mp h with h | h
  · obtain ⟨path, hpath, rfl⟩ := List.mem_map.mp h
    exact (List.takeWhile_sublist _).mem hpath
  · obtain ⟨path, hpath, rfl⟩ := List.mem_map.mp h
    exact List.mem_of_find?_eq_some (Option.mem_toList.mp hpath)

theorem FileView.path_mem_of_mem_reads {files : FileView} {paths : List String} {call : Call}
    (h : call ∈ files.reads paths) : call.path ∈ paths := by
  cases call with
  | read path result => exact (mem_of_mem_reads h).1
  | probe path found =>
    rw [← files.filter_isRead_reads] at h
    exact absurd (List.mem_filter.mp h).2 (by simp [Call.isRead])

/-- The path of a reference is its directory, its stem and its extension. -/
theorem Reference.path_eq {text : String} {r : Reference} (h : parse? text = some r) :
    r.path = r.directory.getD "" ++ r.stem ++ "." ++ r.extension.name := by
  obtain ⟨-, c, -, -, -, -, -, hpath, hbase⟩ := parse?_reads h
  rw [hpath, hbase]
  simp only [String.append_assoc]

namespace Compose

open Composing

variable {files : FileView} {stem stage : String} {strategy : Merge.Strategy} {call : Call}

/-- The search for the files of a stem asks about its candidates and those for the stage. -/
theorem path_mem_of_mem_calls_withFiles {literal : Option Value}
    (h : call ∈ calls files (withFiles literal stem stage strategy)) :
    call.path ∈ candidates ("./" ++ stem)
      ∨ call.path ∈ candidates ("./" ++ stem ++ "." ++ stage) := by
  rw [(composesFrom_withFiles files literal stem stage strategy).1] at h
  rcases List.mem_append.mp h with hprobe | hread
  · exact (List.mem_append.mp hprobe).imp FileView.path_mem_of_mem_probes
      FileView.path_mem_of_mem_probes
  · have hfound {stem : String} (h : call.path ∈ (files.firstPresent (candidates stem)).toList) :
        call.path ∈ candidates stem :=
      List.mem_of_find?_eq_some (Option.mem_toList.mp h)
    exact (List.mem_append.mp (FileView.path_mem_of_mem_reads hread)).imp hfound hfound

/-- All that composing a value asks is about files of its names, with the stage or without it. -/
theorem exists_name_of_mem_calls_value {literal : Option Value}
    (h : call ∈ calls files (value literal stem stage strategy)) :
    ∃ name ∈ names literal stem, call.IsFor stage name := by
  have hstem {literal : Option Value} (hliteral : literal.bind Reference.ofValue? = none)
      (h : call ∈ calls files (withFiles literal stem stage strategy)) :
      ∃ name ∈ names literal stem, call.IsFor stage name := by
    rw [names, hliteral]
    rcases path_mem_of_mem_calls_withFiles h with hpath | hpath
    · obtain ⟨e, he, hpath⟩ := List.mem_map.mp hpath
      exact ⟨_, List.mem_map_of_mem he, Or.inl hpath.symm⟩
    · obtain ⟨e, he, hpath⟩ := List.mem_map.mp hpath
      exact ⟨_, List.mem_map_of_mem he, Or.inr hpath.symm⟩
  match literal with
  | some (.bool _) | some (.number _) => cases h
  | some (.string text) =>
    change call ∈ calls files (referenced text stage strategy) at h
    cases hparse : Reference.parse? text with
    | none =>
      rw [referenced, hparse] at h
      cases h
    | some r =>
      have hliteral : (some (Value.string text)).bind Reference.ofValue? = some r := hparse
      rw [calls_referenced files hparse] at h
      rw [names, hliteral]
      refine ⟨_, List.mem_singleton_self _, ?_⟩
      rcases List.mem_pair.mp (FileView.path_mem_of_mem_reads h) with hpath | hpath
      · exact Or.inl (hpath.trans (Reference.path_eq hparse))
      · exact Or.inr hpath
  | none | some .null | some (.object _) | some (.array _) => exact hstem rfl h

end Compose

namespace Session

open Composing Service

variable {files : FileView} {s : Service} {asked : Option String}

/-- A session that has started has the stage that was chosen. -/
theorem stage_of_start {session : Session}
    (h : ((start s asked).result files).outcome = .ok session) :
    session.stage = s.stageFor asked := by
  rw [result_start] at h
  split at h
  · cases h
  · cases h
    rfl

/-- All that a start asks is about files of its sections, with the chosen stage or without one. -/
theorem exists_name_of_mem_calls_start {call : Call} (h : call ∈ (start s asked).calls files) :
    ∃ sec : Section, ∃ name ∈ Compose.names (s.get? sec) sec.stem,
      call.IsFor (s.stageFor asked) name := by
  rw [calls_start] at h
  obtain ⟨sec, hsec⟩ := exists_section_of_mem_calls h
  exact ⟨sec, Compose.exists_name_of_mem_calls_value hsec⟩

/-- **The stage is a named one, unless the provider leaves it empty.** The stage that is chosen is
the one asked for if it is not empty, or else the declared one if it is not empty, or else the
fallback, and so never empty, exactly if it is not the case that none is asked for and the provider
declares the empty one; then the empty one is chosen. A session that has started has the chosen
stage. All that a start asks, failing or not, is about files with that stage between the name and
the extension, or about files without a stage. -/
theorem stage_named_iff (s : Service) (asked : Option String) :
    (s.stageFor asked = s.namedStage asked ↔ ¬ s.LeavesStageEmpty asked)
    ∧ (s.stageFor asked = "" ↔ s.LeavesStageEmpty asked)
    ∧ s.namedStage asked ≠ ""
    ∧ (∀ files session, ((start s asked).result files).outcome = .ok session →
        session.stage = s.stageFor asked)
    ∧ ∀ files, ∀ call ∈ (start s asked).calls files,
        ∃ sec : Section, ∃ name ∈ Compose.names (s.get? sec) sec.stem,
          call.IsFor (s.stageFor asked) name :=
  ⟨s.stageFor_eq_namedStage_iff asked, s.stageFor_eq_empty_iff asked, s.namedStage_ne_empty asked,
    fun _ _ => stage_of_start, fun _ _ => exists_name_of_mem_calls_start⟩

/-- A service whose provider declares a stage. -/
def declaring (stage : String) : Service :=
  ⟨.object [("provider", .object [("stage", .string stage)])]⟩

/-- An empty stage that is asked for makes way for the declared one. -/
theorem stage_named_declared :
    ¬ (declaring "qa").LeavesStageEmpty (some "")
      ∧ (declaring "qa").stageFor (some "") = "qa"
      ∧ ∃ session,
        ((start (declaring "qa") (some "")).result (FileView.ofFields [])).outcome = .ok session
        ∧ session.stage = "qa"
        ∧ ∃ name, (Call.probe "./variables.qa.yml" false).IsFor "qa" name := by
  obtain ⟨hnamed, -, -, hsession, hcalls⟩ := stage_named_iff (declaring "qa") (some "")
  have hstage : (declaring "qa").stageFor (some "") = "qa" := by decide
  have hstart : ((start (declaring "qa") (some "")).result (FileView.ofFields [])).outcome
      = .ok ⟨"qa", ⟨none, none⟩⟩ := by decide
  have hcall : Call.probe "./variables.qa.yml" false
      ∈ (start (declaring "qa") (some "")).calls (FileView.ofFields []) :=
    List.mem_of_getElem? (i := 4) rfl
  obtain ⟨_, name, -, hfor⟩ := hcalls _ _ hcall
  exact ⟨hnamed.mp (by decide), hstage, _, hstart, (hsession _ _ hstart).trans hstage, name, hfor⟩

/-- The empty stage that a provider declares is chosen, and its files are looked for. -/
theorem not_stage_named_blank :
    (declaring "").stageFor none = "" ∧ (declaring "").namedStage none = "dev"
      ∧ ((start (declaring "") none).result (FileView.ofFields [])).outcome
        = .ok ⟨"", ⟨none, none⟩⟩
      ∧ "./variables..yml"
        ∈ ((start (declaring "") none).calls (FileView.ofFields [])).map Call.path := by
  decide

end Session

end StageVars

import StageVars.Proofs.Program.Stages
/-!
# StageVars.Proofs.Program.Failing -- what a failed run leaves

A run writes its output when nothing is left that could fail but the writing itself. So a run that
cannot load its service or cannot start a session leaves the directory as it was, the file for its
output included, and shows at most the warning about the plugins; and a run that succeeds has
loaded, has started, and has put the values of the service where its command says.

* `Delivered`: what each command leaves.
* `finish_output_cases`: that, or no trace of it.
* `exit_perform_eq_zero_iff`, `perform_of_exit_ne_zero`: runs that succeed and runs that fail.
* `failed_run_leaves_nothing`: all of it for the program.
-/

namespace StageVars

namespace Program

open CommandLine

variable {host : Host} {inv : Invocation} {d : Directory}

/-! ## Outputs in their places -/

/-- What a command leaves of a value, behind some lines for the operator: its text on standard
output, there behind the name of the plugin if the command reports, or in the file that the command
names. Every other file is what it was. -/
def Delivered (command : Option Command) (d : Directory) (lines : String) (v : Value)
    (o : Outcome) : Prop :=
  match command with
  | none => o.stdout = lines ++ (Json.pretty v ++ "\n") ∧ o.directory = d
  | some .merged | some .computed =>
    o.stdout = lines ++ (Plugin.name ++ ": \n" ++ Json.pretty v ++ "\n") ∧ o.directory = d
  | some (.render format none) => o.stdout = lines ++ (render v format ++ "\n") ∧ o.directory = d
  | some (.render format (some path)) => o.stdout = lines ∧ ∃ route, d.target path = .ok route
      ∧ o.directory.lookup? path = some (.file (some (render v format)))
      ∧ ∀ other ≠ route, o.directory.find? other = d.find? other

/-- The end of a run delivers the values of the service and succeeds, or its command names a file
that cannot be written, and it fails and has written nothing. -/
theorem finish_output_cases (s : Service) {session : Session} {service : Service}
    (hmerged : session.merged = Variables.ofService service) (command : Option Command)
    (d : Directory) :
    ((finish ⟨Session.startLog s, .ok (output command service session)⟩ d).exit = 0
        ∧ Delivered command d (orderText s.plugins) (Variables.ofService service).toValue
          (finish ⟨Session.startLog s, .ok (output command service session)⟩ d))
      ∨ ∃ format path fault, command = some (.render format (some path))
        ∧ d.target path = .error fault
        ∧ finish ⟨Session.startLog s, .ok (output command service session)⟩ d
          = .failed (orderText s.plugins) [writing path, fault.message] d := by
  match command with
  | none =>
    rw [output_rendered (.inl rfl), finish_shown]
    exact Or.inl ⟨rfl, rfl, rfl⟩
  | some .merged =>
    rw [output_reported hmerged (.inl rfl), finish_shown]
    exact Or.inl ⟨rfl, rfl, rfl⟩
  | some .computed =>
    rw [output_reported hmerged (.inr rfl), finish_shown]
    exact Or.inl ⟨rfl, rfl, rfl⟩
  | some (.render format none) =>
    rw [output, finish_shown]
    exact Or.inl ⟨rfl, rfl, rfl⟩
  | some (.render format (some path)) =>
    rw [output]
    cases htarget : d.target path with
    | error fault => exact Or.inr ⟨format, path, fault, rfl, htarget, finish_unsaved s htarget _⟩
    | ok route =>
      obtain ⟨d', hfinish, hfile, hothers⟩ := finish_saved s htarget
        (render (Variables.ofService service).toValue format)
      rw [hfinish]
      exact Or.inl ⟨rfl, rfl, route, htarget, hfile, hothers⟩

/-! ## Failed runs -/

/-- A run has loaded its service, has started a session on it, and has done what its command says
with the object that the service is then shown as. -/
def Completes (host : Host) (inv : Invocation) (d : Directory) (o : Outcome) : Prop :=
  ∃ s n start m session v, loaded host inv ⟨d, none⟩ = (.ok s, n)
    ∧ started host inv ⟨d, none⟩ s n = (start, m) ∧ start.outcome = .ok session
    ∧ Shows v start.service ∧ Delivered inv.command d (orderText s.plugins) v o

theorem exit_perform_eq_zero_iff (hopen : openLog inv d = .ok ⟨d, none⟩) :
    (perform host inv d).exit = 0 ↔ Completes host inv d (perform host inv d) := by
  constructor
  · intro hexit
    obtain ⟨s, n, start, m, session, hloaded, hstarted, hsession⟩ :=
      started_of_exit_eq_zero hopen hexit
    refine ⟨s, n, start, m, session, _, hloaded, hstarted, hsession, shows_toValue _, ?_⟩
    rw [perform_of_started hopen hloaded hstarted hsession, conclude_of_no_file] at hexit ⊢
    rcases finish_output_cases s (merged_started hstarted hsession) inv.command d with
      ⟨-, hdelivered⟩ | ⟨_, _, _, -, -, hfailed⟩
    · exact hdelivered
    · rw [hfailed] at hexit
      cases hexit
  · rintro ⟨s, n, start, m, session, v, hloaded, hstarted, hsession, -, hdelivered⟩
    rw [perform_of_started hopen hloaded hstarted hsession, conclude_of_no_file]
    rcases finish_output_cases s (merged_started hstarted hsession) inv.command d with
      ⟨hexit, -⟩ | ⟨format, path, fault, hcommand, htarget, -⟩
    · exact hexit
    · -- what was delivered to a file was written where it can be
      rw [hcommand] at hdelivered
      obtain ⟨-, route, hroute, -⟩ := hdelivered
      rw [htarget] at hroute
      cases hroute

/-- However a run fails, it shows at most the warning and changes nothing. -/
theorem perform_of_exit_ne_zero (hopen : openLog inv d = .ok ⟨d, none⟩)
    (hexit : (perform host inv d).exit ≠ 0) :
    ∃ shown causes, AtMostWarning shown ∧ perform host inv d = .failed shown causes d := by
  cases course host inv ⟨d, none⟩ with
  | @unloaded e n hloaded =>
    refine ⟨"", unloadedCauses inv e, Or.inl rfl, ?_⟩
    rw [perform_of_unloaded hopen hloaded, during_of_no_file]
  | @unstarted s n start m e hloaded hstarted herror =>
    refine ⟨_, [composing, e.display], atMostWarning_orderText s.plugins, ?_⟩
    rw [perform_of_unstarted hopen hloaded hstarted herror, during_of_no_file]
  | started hloaded hstarted hsession =>
    rw [perform_of_started hopen hloaded hstarted hsession, conclude_of_no_file] at hexit ⊢
    rcases finish_output_cases _ (merged_started hstarted hsession) inv.command d with
      ⟨hzero, -⟩ | ⟨_, _, _, -, -, hfailed⟩
    · exact absurd hzero hexit
    · exact ⟨_, _, atMostWarning_orderText _, hfailed⟩

/-- **A failed run leaves no output.** With the log off or on standard error: if the service cannot
be loaded, nothing is shown; if a session cannot be started on it, the warning about the plugins is
shown, if one is due, and nothing else; and both runs exit with 1 and leave the directory as it
was, whatever the command. A run succeeds exactly if it has loaded its service, has started a
session and has done with the values what its command says, to the last character; in any other
case it exits with 1, shows at most the warning, and has changed no file. -/
theorem failed_run_leaves_nothing (host : Host) {args : List String} (hparse : parse args = .ok inv)
    (hlog : inv.log = .off ∨ inv.log = .stderr) (d : Directory) :
    (∀ e n, loaded host inv ⟨d, none⟩ = (.error e, n) →
        run host args d = .failed "" (unloadedCauses inv e) d)
    ∧ (∀ s n start m e, loaded host inv ⟨d, none⟩ = (.ok s, n) →
        started host inv ⟨d, none⟩ s n = (start, m) → start.outcome = .error e →
        run host args d = .failed (orderText s.plugins) [composing, e.display] d
        ∧ AtMostWarning (orderText s.plugins))
    ∧ ((run host args d).exit = 0 ↔ Completes host inv d (run host args d))
    ∧ ((run host args d).exit ≠ 0 →
        ∃ shown causes, AtMostWarning shown ∧ run host args d = .failed shown causes d) := by
  have hopen : openLog inv d = .ok ⟨d, none⟩ := openLog_of_off_or_stderr hlog
  rw [run_of_parse hparse]
  refine ⟨?_, ?_, exit_perform_eq_zero_iff hopen, perform_of_exit_ne_zero hopen⟩
  · intro e n hloaded
    rw [perform_of_unloaded hopen hloaded, during_of_no_file]
  · intro s n start m e hloaded hstarted herror
    rw [perform_of_unstarted hopen hloaded hstarted herror, during_of_no_file]
    exact ⟨rfl, atMostWarning_orderText _⟩

/-- A directory with an output of an earlier run, and a module source for the environment. -/
def spoiled : Directory :=
  ⟨[(["srv", "serverless.json"], .file (some "\x7b\x7d")), (["out.json"], .file (some "kept")),
    (["srv", "variables.json"], .file (some "\x7b\"on\": true\x7d")),
    (["srv", "environment.js"], .file (some "process.exit(1)"))], ["srv"]⟩

/-- The invocation that saves what is composed outside of the directory, without a log. -/
def saving : Invocation :=
  ⟨none, ".", none, true, false, .off, some (.render .json (some "/out.json"))⟩

/-- A host where no module source can be run and diagnostics say nothing. -/
def modulesFail : Host := ⟨fun _ _ => .error "", fun _ => ""⟩

/-- The earlier output stays when the environment cannot be composed. -/
theorem failed_run_leaves_nothing_spoiled :
    parse ["-l", "off", "--allow-modules", "render", "-o", "/out.json"] = .ok saving
    ∧ saving.log = .off
    ∧ ∃ n start m e, loaded modulesFail saving ⟨spoiled, none⟩ = (.ok ⟨.object []⟩, n)
      ∧ started modulesFail saving ⟨spoiled, none⟩ ⟨.object []⟩ n = (start, m)
      ∧ start.outcome = .error e
      ∧ run modulesFail ["-l", "off", "--allow-modules", "render", "-o", "/out.json"] spoiled
        = .failed (orderText []) [composing, e.display] spoiled := by
  have hparse : parse ["-l", "off", "--allow-modules", "render", "-o", "/out.json"]
      = .ok saving := by rfl
  have hloaded : loaded modulesFail saving ⟨spoiled, none⟩ = (.ok ⟨.object []⟩, 4) := by
    decide +kernel
  have hstarted : (started modulesFail saving ⟨spoiled, none⟩ ⟨.object []⟩ 4).1.outcome
      = .error (.moduleBroken "./environment.js" "") := by decide +kernel
  obtain ⟨-, hfailed, -⟩ := failed_run_leaves_nothing modulesFail hparse (Or.inl rfl) spoiled
  exact ⟨hparse, rfl, 4, _, _, _, hloaded, rfl, hstarted, (hfailed _ _ _ _ _ hloaded rfl hstarted).1⟩

end Program

end StageVars

import StageVars.Program
import StageVars.Proofs.Files.Storing
import StageVars.Proofs.Json.Pretty
import StageVars.Proofs.Session.Start
/-!
# StageVars.Proofs.Program.Stages -- a run, stage by stage

What a run shows follows from the service document that it loads and the session that it starts
on it. Before a session there is nothing to say to the operator; a session has at most one line,
which is about the order of the plugins. The command is looked at only then.

* `orderText`: that line, or nothing.
* `loaded`, `started`: the stages, with the files as they are at each question.
* `Course`: how far an invocation comes; `perform_of_unloaded`, `perform_of_unstarted`,
  `perform_of_started`: how its run ends.
* `Shows`: the object that a service is shown as; `document_shown`: its text is a document.
-/

namespace StageVars

/-- The object of both sections has a property that the sections have. -/
theorem Variables.hereditary_toValue {P : Value → Prop} (hP : Value.Hereditary P)
    {vars : Variables} (hcustom : ∀ v ∈ vars.custom, P v)
    (henvironment : ∀ v ∈ vars.environment, P v) : P vars.toValue := by
  obtain ⟨custom, environment⟩ := vars
  cases custom with
  | none =>
    cases environment with
    | none => exact hP.empty
    | some e => exact hP.insert hP.empty "environment" (henvironment e rfl)
  | some c =>
    have hc : P (.object [("custom", c)]) := hP.insert hP.empty "custom" (hcustom c rfl)
    cases environment with
    | none => exact hc
    | some e => exact hP.insert hc "environment" (henvironment e rfl)

namespace Program

open CommandLine

/-! ## Lines for the operator -/

/-- What is shown about the order of some plugins. -/
def orderText (plugins : List Value) : String :=
  match Plugin.orderWarning plugins with
  | some warning => outputLine (Plugin.logger.line (Logger.warning warning))
  | none => ""

theorem join_startLog (s : Service) :
    String.join ((Session.startLog s).map outputLine) = orderText s.plugins := by
  rw [Session.startLog, orderText]
  cases Plugin.orderWarning s.plugins with
  | none => rfl
  | some warning => simp [String.join]

/-- Nothing is said exactly about the plugins of which this one is the first. -/
theorem orderText_eq_empty_iff (plugins : List Value) :
    orderText plugins = "" ↔ Plugin.position? plugins = some 0 := by
  rw [orderText, Plugin.orderWarning]
  match Plugin.position? plugins with
  | some 0 => simp
  | some (position + 1) => simp [outputLine]
  | none => simp [outputLine]

/-- A text is empty, or the line with the warning about a position of the plugin. -/
def AtMostWarning (text : String) : Prop :=
  text = "" ∨ ∃ position, '\n' ∉ (Plugin.misplaced position).toList
    ∧ text = outputLine (Plugin.logger.line (Logger.warning (Plugin.misplaced position)))

theorem clear_misplaced {position : String} (h : '\n' ∉ position.toList) :
    '\n' ∉ (Plugin.misplaced position).toList := by
  have hbefore : '\n' ∉ "To ensure ".toList := by decide
  have hname : '\n' ∉ Plugin.name.toList := by decide
  have hbehind : '\n'
      ∉ " functions properly, it should be the first plugin. Found it at index: ".toList := by
    decide
  simp only [Plugin.misplaced, String.toList_append, List.mem_append, hbefore, hname, hbehind, h,
    or_self, not_false_eq_true]

theorem clear_repr (n : Nat) : '\n' ∉ (Nat.repr n).toList := by
  rw [Nat.repr, String.toList_ofList]
  intro hmem
  exact absurd (Digits.isDigit_of_mem_toDigits hmem) (by decide)

/-- What is said about the plugins is at most one line. -/
theorem atMostWarning_orderText (plugins : List Value) : AtMostWarning (orderText plugins) := by
  rw [orderText, Plugin.orderWarning]
  match Plugin.position? plugins with
  | some 0 => exact Or.inl rfl
  | some (position + 1) => exact Or.inr ⟨_, clear_misplaced (clear_repr _), rfl⟩
  | none => exact Or.inr ⟨_, clear_misplaced (by decide), rfl⟩

/-- The line of a report: the name of the plugin, and the report from the next line on. -/
theorem outputLine_reportLine (report : String) :
    outputLine (Session.reportLine report) = Plugin.name ++ ": \n" ++ report ++ "\n" := by
  have hstart : Plugin.name ++ ": " ++ "\n" = Plugin.name ++ ": \n" := rfl
  rw [outputLine, Session.reportLine, Logger.line, ← hstart, ← String.append_assoc]
  rfl

/-! ## The stages of a run -/

/-- The service that an invocation is about: that of the document which it names, or else of the
first service document that is there. -/
def serviceOf (inv : Invocation) : Composing Service :=
  match inv.config with
  | some path => Service.load path
  | none => Service.discover inv.servicePath

/-- What is said about a failure to load it. A document that is named is named again. -/
def unloadedCauses (inv : Invocation) (e : Failure) : Causes :=
  (inv.config.map loading).toList ++ [e.display]

theorem service_eq (inv : Invocation) :
    service inv
      = (serviceOf inv).run >>= fun outcome => pure (outcome.mapError (unloadedCauses inv)) := by
  obtain ⟨config, _⟩ := inv
  cases config <;> rfl

/-- What loading the service of an invocation comes to, and how many questions it takes. -/
def loaded (host : Host) (inv : Invocation) (o : Opened) : Except Failure Service × Nat :=
  (serviceOf inv).run.resultOver (views host inv o) 0

/-- What starting a session on a service comes to after so many questions, and how many there are
then. -/
def started (host : Host) (inv : Invocation) (o : Opened) (s : Service) (n : Nat) : Start × Nat :=
  (Session.start s inv.stage).resultOver (views host inv o) n

/-- How far an invocation comes before its command is looked at. -/
inductive Course (host : Host) (inv : Invocation) (o : Opened) : Prop where
  | unloaded {e : Failure} {n : Nat} (hloaded : loaded host inv o = (.error e, n))
  | unstarted {s : Service} {n : Nat} {start : Start} {m : Nat} {e : Failure}
      (hloaded : loaded host inv o = (.ok s, n)) (hstarted : started host inv o s n = (start, m))
      (herror : start.outcome = .error e)
  | started {s : Service} {n : Nat} {start : Start} {m : Nat} {session : Session}
      (hloaded : loaded host inv o = (.ok s, n)) (hstarted : started host inv o s n = (start, m))
      (hsession : start.outcome = .ok session)

theorem course (host : Host) (inv : Invocation) (o : Opened) : Course host inv o := by
  rcases hloaded : loaded host inv o with ⟨e | s, n⟩
  · exact .unloaded hloaded
  · rcases hstarted : Program.started host inv o s n with ⟨start, m⟩
    cases houtcome : start.outcome with
    | error e => exact .unstarted hloaded hstarted houtcome
    | ok session => exact .started hloaded hstarted houtcome

variable {host : Host} {inv : Invocation} {d : Directory} {o : Opened} {s : Service} {n m : Nat}
  {start : Start}

theorem run_of_parse {args : List String} (h : parse args = .ok inv) :
    run host args d = perform host inv d := by
  rw [run, h]

theorem perform_eq (hopen : openLog inv d = .ok o) :
    perform host inv d = conclude host o ((report inv).resultOver (views host inv o) 0).1
      ((report inv).resultOver (views host inv o) 0).2 := by
  rw [perform, hopen]

theorem perform_of_unloaded (hopen : openLog inv d = .ok o) {e : Failure}
    (hloaded : loaded host inv o = (.error e, n)) :
    perform host inv d = .failed "" (unloadedCauses inv e) (o.during host.diary (n + 1)) := by
  rw [loaded] at hloaded
  rw [perform_eq hopen, report, service_eq, Lookup.resultOver_bind, Lookup.resultOver_bind, hloaded]
  rfl

/-- With its service loaded, a run is the start of a session and what follows from it. -/
theorem perform_of_loaded (hopen : openLog inv d = .ok o) (hloaded : loaded host inv o = (.ok s, n))
    (hstarted : started host inv o s n = (start, m)) :
    perform host inv d = conclude host o
      ⟨start.log, match start.outcome with
        | .error e => .error [composing, e.display]
        | .ok session => .ok (output inv.command start.service session)⟩ m := by
  rw [loaded] at hloaded
  rw [started] at hstarted
  rw [perform_eq hopen, report, service_eq, Lookup.resultOver_bind, Lookup.resultOver_bind, hloaded]
  show conclude host o ((Session.start s inv.stage >>= _).resultOver _ n).1
    ((Session.start s inv.stage >>= _).resultOver _ n).2 = _
  rw [Lookup.resultOver_bind, hstarted]
  cases start.outcome <;> rfl

/-- A start logs what is to be said about the plugins, whatever the files are meanwhile. -/
theorem log_started (hstarted : started host inv o s n = (start, m)) :
    start.log = Session.startLog s := by
  have hlog := (Session.ensures_log_start (P := fun _ => True) s inv.stage).resultOver
    (fun n path v _ => trivial : ∀ n, (views host inv o n).Holds _) n
  rwa [← started, hstarted] at hlog

/-- A session keeps the values of its service, whatever the files are meanwhile. -/
theorem merged_started (hstarted : started host inv o s n = (start, m)) {session : Session}
    (hsession : start.outcome = .ok session) :
    session.merged = Variables.ofService start.service := by
  have hmerged := (Session.ensures_merged_start (P := fun _ => True) s inv.stage).resultOver
    (fun n path v _ => trivial : ∀ n, (views host inv o n).Holds _) n
  rw [← started, hstarted] at hmerged
  exact hmerged session hsession

theorem perform_of_unstarted (hopen : openLog inv d = .ok o)
    (hloaded : loaded host inv o = (.ok s, n)) (hstarted : started host inv o s n = (start, m))
    {e : Failure} (herror : start.outcome = .error e) :
    perform host inv d
      = .failed (orderText s.plugins) [composing, e.display] (o.during host.diary (m + 1)) := by
  rw [perform_of_loaded hopen hloaded hstarted, herror, log_started hstarted, ← join_startLog]
  rfl

theorem perform_of_started (hopen : openLog inv d = .ok o)
    (hloaded : loaded host inv o = (.ok s, n)) (hstarted : started host inv o s n = (start, m))
    {session : Session} (hsession : start.outcome = .ok session) :
    perform host inv d
      = conclude host o ⟨Session.startLog s, .ok (output inv.command start.service session)⟩ m := by
  rw [perform_of_loaded hopen hloaded hstarted, hsession, log_started hstarted]

/-- A run that succeeds has loaded its service and has started a session on it. -/
theorem started_of_exit_eq_zero (hopen : openLog inv d = .ok o)
    (hexit : (perform host inv d).exit = 0) :
    ∃ s n start m session, loaded host inv o = (.ok s, n) ∧ started host inv o s n = (start, m)
      ∧ start.outcome = .ok session := by
  cases course host inv o with
  | unloaded hloaded =>
    rw [perform_of_unloaded hopen hloaded] at hexit
    cases hexit
  | unstarted hloaded hstarted herror =>
    rw [perform_of_unstarted hopen hloaded hstarted herror] at hexit
    cases hexit
  | started hloaded hstarted hsession => exact ⟨_, _, _, _, _, hloaded, hstarted, hsession⟩

/-! ## Runs without a log file -/

theorem openLog_of_off_or_stderr (h : inv.log = .off ∨ inv.log = .stderr) :
    openLog inv d = .ok ⟨d, none⟩ := by
  rcases h with h | h <;> rw [openLog, h]

/-- Without a log file a run writes nothing between its questions. -/
theorem during_of_no_file (d : Directory) (diary : Nat → String) (n : Nat) :
    Opened.during ⟨d, none⟩ diary n = d := by
  induction n with
  | zero => rfl
  | succ n ih => exact ih

theorem conclude_of_no_file (r : Report) (n : Nat) :
    conclude host ⟨d, none⟩ r n = finish r d := by
  rw [conclude, during_of_no_file]
  rfl

/-! ## Outputs -/

theorem finish_shown (s : Service) (text : String) (d : Directory) :
    finish ⟨Session.startLog s, .ok (.shown text)⟩ d = ⟨0, orderText s.plugins ++ text, [], d⟩ := by
  rw [← join_startLog]
  rfl

theorem conclude_shown (host : Host) (o : Opened) (s : Service) (text : String) (n : Nat) :
    conclude host o ⟨Session.startLog s, .ok (.shown text)⟩ n
      = ⟨0, orderText s.plugins ++ text, [], o.during host.diary (n + 1)⟩ := by
  rw [conclude, finish_shown]
  rfl

/-- A text for a file is written where one can be written under the path, and nowhere else. -/
theorem finish_saved (s : Service) {path : String} {route : Route} (h : d.target path = .ok route)
    (text : String) :
    ∃ d', finish ⟨Session.startLog s, .ok (.saved path text)⟩ d = ⟨0, orderText s.plugins, [], d'⟩
      ∧ d'.lookup? path = some (.file (some text))
      ∧ ∀ other ≠ route, d'.find? other = d.find? other := by
  obtain ⟨-, -, htakes⟩ := Directory.of_target h
  refine ⟨d.insert route (.file (some text)), ?_, Directory.lookup?_insert h _,
    fun other hother => htakes.find?_insert_of_ne hother _⟩
  rw [← join_startLog, finish]
  simp only [Directory.write, h]
  rfl

theorem finish_unsaved (s : Service) {path : String} {fault : PathFault}
    (h : d.target path = .error fault) (text : String) :
    finish ⟨Session.startLog s, .ok (.saved path text)⟩ d
      = .failed (orderText s.plugins) [writing path, fault.message] d := by
  rw [← join_startLog, finish]
  simp only [Directory.write, h]
  rfl

variable {session : Session}

/-- Without a command, and when it renders to standard output, the values stand there alone. -/
theorem output_rendered {command : Option Command}
    (h : command = none ∨ command = some (.render .json none)) :
    output command s session = .shown (Json.pretty (Variables.ofService s).toValue ++ "\n") := by
  rcases h with rfl | rfl <;> rfl

/-- Both reports are the values behind the name of the plugin. -/
theorem output_reported (hmerged : session.merged = Variables.ofService s) {command : Command}
    (h : command = .merged ∨ command = .computed) :
    output (some command) s session = .shown
      (Plugin.name ++ ": \n" ++ Json.pretty (Variables.ofService s).toValue ++ "\n") := by
  have hreport : session.report = Session.liveReport s := by
    rw [Session.report, Session.liveReport, hmerged]
  rcases h with rfl | rfl <;> rw [output, ← outputLine_reportLine]
  · rw [hreport]
    rfl
  · rfl

/-! ## What is shown -/

/-- A value is the object of the sections of a service that are there: each of them under its key,
in their order, and nothing else. -/
def Shows (v : Value) (s : Service) : Prop :=
  ∃ fields, v = .object fields
    ∧ Fields.keys fields
      = ([Section.custom, .environment].filter fun sec => (s.get? sec).isSome).map Section.key
    ∧ ∀ sec, Fields.get? fields sec.key = s.get? sec

theorem shows_toValue (s : Service) : Shows (Variables.ofService s).toValue s := by
  have hget (sec : Section) : (Variables.ofService s).get sec = s.get? sec := by
    cases sec <;> rfl
  refine ⟨(Variables.ofService s).toValue.entries, rfl, ?_, fun sec => ?_⟩
  · rw [Variables.keys_toValue, Variables.sections]
    simp only [hget]
  · exact ((Variables.ofService s).get?_toValue sec).trans (hget sec)

/-- The document of the service has every property that the files hold. -/
theorem ensures_serviceOf {P : Value → Prop} (inv : Invocation) :
    (serviceOf inv).Ensures P fun s => P s.document := by
  rw [serviceOf]
  split
  · exact Service.ensures_load _
  · exact Service.ensures_discover _

/-- The object that a run shows has every property that all files have. -/
theorem hereditary_shown {P : Value → Prop} (hP : Value.Hereditary P)
    (hloaded : loaded host inv o = (.ok s, n)) (hstarted : started host inv o s n = (start, m))
    {session : Session} (hsession : start.outcome = .ok session) :
    P (Variables.ofService start.service).toValue := by
  have hviews (n : Nat) : (views host inv o n).Holds P := ServiceFiles.hereditary_view hP _
  have hdocument : P s.document := by
    have h := Lookup.Ensures.resultOver (ensures_serviceOf (P := P) inv) hviews 0
    rw [← loaded, hloaded] at h
    exact h s rfl
  have hsections := (Session.ensures_sections_start s inv.stage hP hdocument).resultOver hviews n
  rw [← started, hstarted] at hsections
  have hsections := hsections session hsession
  exact Variables.hereditary_toValue hP (hsections .custom) (hsections .environment)

/-- The JSON text of the object that a run shows is a document for it. -/
theorem document_shown (hloaded : loaded host inv o = (.ok s, n))
    (hstarted : started host inv o s n = (start, m)) {session : Session}
    (hsession : start.outcome = .ok session) :
    Json.Document (Json.pretty (Variables.ofService start.service).toValue)
      (Variables.ofService start.service).toValue :=
  Json.document_pretty
    (hereditary_shown Value.hereditary_distinctKeys hloaded hstarted hsession)
    (hereditary_shown Value.hereditary_numbersFit hloaded hstarted hsession)

end Program

end StageVars

import StageVars.Proofs.Program.Stages
/-!
# StageVars.Proofs.Program.Output -- what the commands show

All commands compose the same values and show them as the same JSON text; they differ in what
stands around it. Before it there is the warning about the order of the plugins, if one is due,
so that standard output as a whole is a document only if this plugin is the first.

* `shown_document`: what is shown when a document is asked for.
* `commands_agree`: one text for all commands.
-/

namespace StageVars

namespace Program

open CommandLine

variable {d : Directory}

/-! ## Documents on standard output -/

/-- Whether a run is asked for a JSON document on standard output and for nothing else there. -/
def AsksForDocument (inv : Invocation) : Prop :=
  inv.log ≠ .stdout ∧ (inv.command = none ∨ inv.command = some (.render .json none))

/-- A text that begins with a warning about the plugins is no document. -/
theorem orderText_eq_empty_of_document {plugins : List Value} {text : String} {v : Value}
    (h : Json.Document (orderText plugins ++ text) v) : orderText plugins = "" := by
  rw [orderText] at h ⊢
  cases hwarning : Plugin.orderWarning plugins with
  | none => rfl
  | some warning =>
    rw [hwarning] at h
    obtain ⟨c, rest, hhead, hopening⟩ := h.head?
    -- the name of the plugin comes first
    have hs : c = 's' := by
      have hfirst := congrArg List.head? hhead
      simpa [outputLine, Logger.line, Plugin.logger, Plugin.name] using hfirst.symm
    subst hs
    exact absurd hopening (by decide)

/-- **What is shown is one document behind the warning about the plugins.** If a run is asked for
a document and succeeds, then it loaded a service and started a session, and what it shows is the
warning that is due and, from there to the end, one JSON document: that of the object which holds
the sections of the service after the start, as far as they are there, and nothing else. The whole
of it is a document, and then that one, exactly if no warning is due, because this plugin is the
first. It makes no difference what a log file contributes that grows among the files. -/
theorem shown_document {host : Host} {args : List String} {inv : Invocation}
    (hparse : parse args = .ok inv) (hasks : AsksForDocument inv)
    (hexit : (run host args d).exit = 0) :
    ∃ o s n start m session document v,
      openLog inv d = .ok o
      ∧ loaded host inv o = (.ok s, n)
      ∧ started host inv o s n = (start, m) ∧ start.outcome = .ok session
      ∧ (run host args d).stdout = orderText s.plugins ++ document
      ∧ AtMostWarning (orderText s.plugins)
      ∧ Json.Document document v ∧ Shows v start.service
      ∧ ((∃ v, Json.Document (run host args d).stdout v) ↔ Plugin.position? s.plugins = some 0)
      ∧ (Plugin.position? s.plugins = some 0 → (run host args d).stdout = document) := by
  rw [run_of_parse hparse] at hexit ⊢
  cases hopen : openLog inv d with
  | error fault =>
    rw [perform, hopen] at hexit
    cases hexit
  | ok o =>
    obtain ⟨s, n, start, m, session, hloaded, hstarted, hsession⟩ :=
      started_of_exit_eq_zero hopen hexit
    have hstdout : (perform host inv d).stdout = orderText s.plugins
        ++ (Json.pretty (Variables.ofService start.service).toValue ++ "\n") := by
      rw [perform_of_started hopen hloaded hstarted hsession, output_rendered hasks.2,
        conclude_shown]
    have hdocument := (document_shown hloaded hstarted hsession).append_newline
    have hfirst (h : Plugin.position? s.plugins = some 0) : (perform host inv d).stdout
        = Json.pretty (Variables.ofService start.service).toValue ++ "\n" := by
      rw [hstdout, (orderText_eq_empty_iff _).mpr h, String.empty_append]
    refine ⟨o, s, n, start, m, session, _, _, rfl, hloaded, hstarted, hsession, hstdout,
      atMostWarning_orderText _, hdocument, shows_toValue _, ⟨?_, ?_⟩, hfirst⟩
    · rintro ⟨v, hv⟩
      rw [hstdout] at hv
      exact (orderText_eq_empty_iff _).mp (orderText_eq_empty_of_document hv)
    · intro h
      rw [hfirst h]
      exact ⟨_, hdocument⟩

/-- A host that prints an object for every module source, and whose diagnostics are one line
each. -/
def talking : Host := ⟨fun _ _ => .ok (some "\x7b\"on\": true\x7d"), fun _ => "noted\n"⟩

/-- The invocation that allows modules and keeps its log beside the service document. -/
def loggingThere : Invocation := ⟨none, "/srv/app", none, true, true, .file "run.log", none⟩

/-- Its arguments. -/
def loggingArguments : List String := ["-v", "-p/srv/app", "--log=run.log", "--allow-modules"]

/-- A directory with a service whose only plugin is this one, and a module source for its
environment. -/
def ordered : Directory :=
  ⟨[(["srv", "app", "serverless.json"], .file (some (
      "\x7b\"plugins\": [\"serverless-plugin-composed-vars\"],"
        ++ " \"custom\": \x7b\"rate\": 0.1\x7d\x7d"))),
    (["srv", "app", "environment.js"], .file (some "module.exports = \x7b on: true \x7d"))],
    ["srv", "app"]⟩

/-- The values of the service in that directory. -/
def orderedValues : Value :=
  .object [("custom", .object [("rate", .number (.float ⟨false, 7205759403792794, -56⟩))]),
    ("environment", .object [("on", .bool true)])]

/-- With this plugin as the first, the whole of standard output is one document. -/
theorem shown_document_ordered :
    parse loggingArguments = .ok loggingThere ∧ AsksForDocument loggingThere
    ∧ (run talking loggingArguments ordered).exit = 0
    ∧ ∃ v start, Json.Document (run talking loggingArguments ordered).stdout v
      ∧ Shows v start ∧ (Variables.ofService start).toValue = orderedValues := by
  have hparse : parse loggingArguments = .ok loggingThere := by rfl
  have hasks : AsksForDocument loggingThere := ⟨nofun, Or.inl rfl⟩
  have hexit : (run talking loggingArguments ordered).exit = 0 := by decide +kernel
  obtain ⟨o, s, n, start, m, session, document, v, hopen, hloaded, hstarted, -, -, -, hdocument,
    hshows, -, hwhole⟩ := shown_document hparse hasks hexit
  have hservice : (openLog loggingThere ordered).toOption.map (fun o =>
      (loaded talking loggingThere o).1.toOption.map fun s => (Plugin.position? s.plugins,
        (Variables.ofService
          (started talking loggingThere o s (loaded talking loggingThere o).2).1.service).toValue))
      = some (some (some 0, orderedValues)) := by decide +kernel
  simp only [hopen, hloaded, hstarted, Except.toOption, Option.map_some, Option.some.injEq,
    Prod.mk.injEq] at hservice
  refine ⟨hparse, hasks, hexit, v, start.service, ?_, hshows, hservice.2⟩
  rw [hwhole hservice.1]
  exact hdocument

/-- The invocation without any options. -/
def plainly : Invocation := ⟨none, ".", none, false, false, .stderr, none⟩

/-- A directory with an empty service document. -/
def unordered : Directory := ⟨[(["serverless.json"], .file (some "\x7b\x7d"))], []⟩

/-- A service without plugins is warned about, and what is shown then is no document. -/
theorem not_document_unordered :
    parse [] = .ok plainly ∧ AsksForDocument plainly ∧ (run talking [] unordered).exit = 0
    ∧ ∀ v, ¬ Json.Document (run talking [] unordered).stdout v := by
  have hrun : (run talking [] unordered).exit = 0
      ∧ (run talking [] unordered).stdout.toList.head? = some 's' := by decide +kernel
  obtain ⟨hexit, hfirst⟩ := hrun
  refine ⟨by rfl, ⟨nofun, Or.inl rfl⟩, hexit, ?_⟩
  intro v hv
  obtain ⟨c, rest, hhead, hopening⟩ := hv.head?
  rw [hhead] at hfirst
  cases hfirst
  exact absurd hopening (by decide)

/-! ## One text for all commands -/

/-- **All commands report the same values.** With the log off or on standard error, there is one
line for the operator, or none, so that all commands either fail alike, with the same causes, or
show one JSON document in their own way, that of the service after the start: a run that renders it
shows the line and the document, one that reports it puts the name of the plugin before the
document, and one that saves it where a file can be written shows the line alone, leaves exactly
the document under the path, and changes nothing else. -/
theorem commands_agree (host : Host) {inv : Invocation} (hlog : inv.log = .off ∨ inv.log = .stderr)
    (d : Directory) :
    ∃ warning, AtMostWarning warning
      ∧ ((∃ shown causes, ∀ command args, parse args = .ok { inv with command } →
            run host args d = .failed shown causes d)
        ∨ ∃ s n start m session document v, loaded host inv ⟨d, none⟩ = (.ok s, n)
          ∧ started host inv ⟨d, none⟩ s n = (start, m) ∧ start.outcome = .ok session
          ∧ Json.Document document v ∧ Shows v start.service
          ∧ (∀ command ∈ [none, some (.render .json none)], ∀ args,
              parse args = .ok { inv with command } →
              run host args d = ⟨0, warning ++ (document ++ "\n"), [], d⟩)
          ∧ (∀ command ∈ [Command.merged, Command.computed], ∀ args,
              parse args = .ok { inv with command := some command } →
              run host args d
                = ⟨0, warning ++ (Plugin.name ++ ": \n" ++ document ++ "\n"), [], d⟩)
          ∧ ∀ path route, d.target path = .ok route →
              ∃ d', d'.lookup? path = some (.file (some document))
                ∧ (∀ other ≠ route, d'.find? other = d.find? other)
                ∧ ∀ args,
                  parse args = .ok { inv with command := some (.render .json (some path)) } →
                  run host args d = ⟨0, warning, [], d'⟩) := by
  have hopen : openLog inv d = .ok ⟨d, none⟩ := openLog_of_off_or_stderr hlog
  -- neither the log nor the stages before the output depend on the command
  have hopened (command : Option Command) : openLog { inv with command } d = .ok ⟨d, none⟩ := hopen
  cases course host inv ⟨d, none⟩ with
  | @unloaded e n hloaded =>
    refine ⟨"", Or.inl rfl, Or.inl ⟨"", unloadedCauses inv e, fun command args hparse => ?_⟩⟩
    rw [run_of_parse hparse, perform_of_unloaded (hopened command) hloaded, during_of_no_file]
    rfl
  | @unstarted s n start m e hloaded hstarted herror =>
    refine ⟨_, atMostWarning_orderText s.plugins,
      Or.inl ⟨orderText s.plugins, [composing, e.display], fun command args hparse => ?_⟩⟩
    rw [run_of_parse hparse, perform_of_unstarted (hopened command) hloaded hstarted herror,
      during_of_no_file]
  | @started s n start m session hloaded hstarted hsession =>
    have hrun {command : Option Command} {args : List String}
        (hparse : parse args = .ok { inv with command }) : run host args d
          = finish ⟨Session.startLog s, .ok (output command start.service session)⟩ d := by
      rw [run_of_parse hparse, perform_of_started (hopened command) hloaded hstarted hsession,
        conclude_of_no_file]
    refine ⟨_, atMostWarning_orderText s.plugins, Or.inr ⟨s, n, start, m, session, _, _, hloaded,
      hstarted, hsession, document_shown hloaded hstarted hsession, shows_toValue _, ?_, ?_, ?_⟩⟩
    · intro command hcommand args hparse
      rw [hrun hparse, output_rendered (List.mem_pair.mp hcommand), finish_shown]
    · intro command hcommand args hparse
      rw [hrun hparse, output_reported (merged_started hstarted hsession)
        (List.mem_pair.mp hcommand), finish_shown]
    · intro path route htarget
      obtain ⟨d', hfinish, hfile, hothers⟩ := finish_saved s htarget
        (Json.pretty (Variables.ofService start.service).toValue)
      refine ⟨d', hfile, hothers, fun args hparse => ?_⟩
      rw [hrun hparse]
      exact hfinish

/-- The invocation that keeps no log. -/
def quietly : Invocation := { plainly with log := .off }

/-- Rendering, reporting and saving the values of an empty service. -/
theorem commands_agree_unordered :
    parse ["-l", "off"] = .ok quietly
    ∧ parse ["-l", "off", "merged"] = .ok { quietly with command := some .merged }
    ∧ parse ["-l", "off", "render", "-o", "../up.json"]
      = .ok { quietly with command := some (.render .json (some "../up.json")) }
    ∧ quietly.log = .off
    ∧ (run talking ["-l", "off"] unordered).exit = 0
    ∧ ∃ warning document d',
      run talking ["-l", "off"] unordered = ⟨0, warning ++ (document ++ "\n"), [], unordered⟩
      ∧ run talking ["-l", "off", "merged"] unordered
        = ⟨0, warning ++ (Plugin.name ++ ": \n" ++ document ++ "\n"), [], unordered⟩
      ∧ run talking ["-l", "off", "render", "-o", "../up.json"] unordered = ⟨0, warning, [], d'⟩
      ∧ d'.lookup? "../up.json" = some (.file (some document)) := by
  have hrendered : parse ["-l", "off"] = .ok quietly := by rfl
  have hmerged : parse ["-l", "off", "merged"]
      = .ok { quietly with command := some .merged } := by rfl
  have hsaved : parse ["-l", "off", "render", "-o", "../up.json"]
      = .ok { quietly with command := some (.render .json (some "../up.json")) } := by rfl
  have hexit : (run talking ["-l", "off"] unordered).exit = 0 := by decide +kernel
  have htarget : unordered.target "../up.json" = .ok ["up.json"] := by decide +kernel
  refine ⟨hrendered, hmerged, hsaved, rfl, hexit, ?_⟩
  obtain ⟨warning, -, ⟨shown, causes, hfailed⟩ | ⟨_, _, _, _, _, document, _, -, -, -, -, -, hshown,
    hreported, hleft⟩⟩ :=
    commands_agree talking (Or.inl rfl : quietly.log = .off ∨ quietly.log = .stderr) unordered
  · rw [hfailed none _ hrendered] at hexit
    cases hexit
  · obtain ⟨d', hfile, -, hrun⟩ := hleft _ _ htarget
    exact ⟨warning, document, d', hshown none (by decide) _ hrendered,
      hreported .merged (by decide) _ hmerged, hrun _ hsaved, hfile⟩

end Program

end StageVars

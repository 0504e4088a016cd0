import StageVars.Proofs.CommandLine.Scanning
import StageVars.Proofs.CommandLine.Settings
/-!
# StageVars.Proofs.CommandLine.Spelling -- one choice of options, many command lines

An option with a value can be written in four ways, its settings may come in any order, and those
of global options stand before the command or behind it. None of this matters: what is understood
are the values that were chosen, and defaults for the others.

* `Setting.Spelling`: the ways to write a setting.
* `Spells`: the command lines of a choice.
* `reads_spelling`, `reads_written`: reading one setting, and several.
* `parse_spelled`: all command lines of a choice are understood as that choice.
-/

namespace StageVars

namespace CommandLine

/-! ## Ways to write a choice -/

/-- The ways to write a setting as arguments. -/
inductive Setting.Spelling (x : Setting) : List String → Prop
  | flagLong (h : x.opt.arity = .flag) : Spelling x ["--" ++ x.opt.long]
  | flagShort (h : x.opt.arity = .flag) {c : Char} (hc : x.opt.short? = some c) :
    Spelling x ["-" ++ c.toString]
  | longNext (h : x.opt.arity = .value) : Spelling x ["--" ++ x.opt.long, x.text]
  | longJoined (h : x.opt.arity = .value) : Spelling x ["--" ++ x.opt.long ++ "=" ++ x.text]
  | shortNext (h : x.opt.arity = .value) {c : Char} (hc : x.opt.short? = some c) :
    Spelling x ["-" ++ c.toString, x.text]
  | shortJoined (h : x.opt.arity = .value) {c : Char} (hc : x.opt.short? = some c) :
    Spelling x ["-" ++ c.toString ++ x.text]

/-- Settings that are written one after the other, each in one of its ways. -/
inductive Written : List Setting → List String → Prop
  | nil : Written [] []
  | cons {x : Setting} {args : List String} (hx : x.Spelling args) {rest : List Setting}
    {args' : List String} (hrest : Written rest args') : Written (x :: rest) (args ++ args')

/-- The options that may stand before a command and behind it. -/
def Opt.IsGlobal : Opt → Prop
  | .config | .servicePath | .stage | .allowModules | .verbose | .log => True
  | .format | .output | .help | .version => False

/-- The options of a command alone. -/
def CommandName.Owns : CommandName → Opt → Prop
  | .render, .format | .render, .output => True
  | _, _ => False

/-- The command lines of a choice of options and of a command or none: settings of global options,
and behind the command settings of these and of its own options. Together they say what is chosen,
each option once. -/
inductive Spells (g : Given) : Option CommandName → List String → Prop
  | alone {settings : List Setting} (hchosen : g.Chooses settings)
    (hglobal : ∀ x ∈ settings, x.opt.IsGlobal) {args : List String} (h : Written settings args) :
    Spells g none args
  | command {c : CommandName} {before after : List Setting}
    (hchosen : g.Chooses (before ++ after)) (hbefore : ∀ x ∈ before, x.opt.IsGlobal)
    (hafter : ∀ x ∈ after, x.opt.IsGlobal ∨ c.Owns x.opt) {front back : List String}
    (hfront : Written before front) (hback : Written after back) :
    Spells g (some c) (front ++ c.name :: back)

/-! ## Names of options -/

theorem Opt.mem_options_of_isGlobal {o : Opt} (h : o.IsGlobal) (level : Level) :
    o ∈ level.options := by
  rcases level with _ | c
  · cases o <;> first | decide | exact h.elim
  · cases c <;> cases o <;> first | decide | exact h.elim

theorem Opt.mem_options_of_owns {c : CommandName} {o : Opt} (h : c.Owns o) :
    o ∈ (Level.command c).options := by
  cases c <;> cases o <;> first | decide | exact h.elim

/-- An option of a level is found by its long name. -/
theorem Level.ofLong?_long {level : Level} {o : Opt} (h : o ∈ level.options) :
    level.ofLong? o.long = some o := by
  revert o
  rcases level with _ | c
  · decide
  · cases c <;> decide

/-- It is found by its letter, too. -/
theorem Level.ofShort?_short {level : Level} {o : Opt} (h : o ∈ level.options) {c : Char}
    (hc : o.short? = some c) : level.ofShort? c = some o := by
  rcases level with _ | command
  · cases o <;> cases hc <;> first | rfl | exact absurd h (by decide)
  · cases command <;> cases o <;> cases hc <;> first | rfl | exact absurd h (by decide)

theorem Opt.equals_not_mem_long (o : Opt) : '=' ∉ o.long.toList := by
  cases o <;> decide

theorem Opt.long_ne_empty (o : Opt) : o.long ≠ "" := by
  cases o <;> decide

theorem Opt.short_ne_dash {o : Opt} {c : Char} (h : o.short? = some c) : c ≠ '-' := by
  cases o <;> cases h <;> decide

/-! ## Reading settings -/

open Scan

/-- A setting in any of its ways is given, at once or when its value is looked at. -/
theorem reads_spelling {level : Level} {s : Scan} {g g' : Given} {x : Setting}
    {args : List String} (hs : s.Holds g) (hlevel : x.opt ∈ level.options) (hplain : x.Plain)
    (hgive : g.give x.opt x.text = .ok g') (h : x.Spelling args) : s.Reads level args g' := by
  have hlong := Level.ofLong?_long hlevel
  have hequals := x.opt.equals_not_mem_long
  have hgiven : s.give x.opt x.text = .ok ⟨g', none⟩ := hs.give hgive
  rw [Setting.Plain] at hplain
  cases h with
  | flagLong harity =>
    simp only [harity] at hplain
    have hread : s.long level x.opt.long.toList = .ok ⟨g', none⟩ := by
      simpa only [long_alone hlong hequals, harity, hplain] using hgiven
    exact reads_given (take?_long x.opt.long_ne_empty hread)
  | @flagShort harity c hc =>
    simp only [harity] at hplain
    have hread : s.short level [c] = .ok ⟨g', none⟩ := by
      simpa only [short_alone (Level.ofShort?_short hlevel hc), harity, hplain] using hgiven
    exact reads_given (take?_letter (Opt.short_ne_dash hc) hread)
  | longNext harity =>
    simp only [harity] at hplain
    have hread : s.long level x.opt.long.toList = .ok ⟨g, some (x.opt, none)⟩ := by
      rw [long_alone hlong hequals, harity]
      exact hs.await x.opt
    exact reads_supplied (take?_long x.opt.long_ne_empty hread) hplain.2.1 hgive
  | longJoined harity =>
    have hread := (long_joined hlong hequals harity x.text).trans hgiven
    have hbody : x.opt.long ++ "=" ++ x.text ≠ "" := by simp [x.opt.long_ne_empty]
    have hargument : "--" ++ x.opt.long ++ "=" ++ x.text
        = "--" ++ (x.opt.long ++ "=" ++ x.text) := by
      simp only [String.append_assoc]
    rw [hargument]
    exact reads_given (take?_long hbody hread)
  | @shortNext harity c hc =>
    simp only [harity] at hplain
    have hread : s.short level [c] = .ok ⟨g, some (x.opt, none)⟩ := by
      rw [short_alone (Level.ofShort?_short hlevel hc), harity]
      exact hs.await x.opt
    exact reads_supplied (take?_letter (Opt.short_ne_dash hc) hread) hplain.2.1 hgive
  | shortJoined harity hc =>
    simp only [harity] at hplain
    obtain ⟨hvalue, -, hfirst⟩ := hplain
    have hletter := Level.ofShort?_short hlevel hc
    have hread := (short_joined hletter harity hvalue hfirst).trans hgiven
    exact reads_given (take?_short (Opt.short_ne_dash hc) hread)

/-- Behind settings that are written one after the other, all of their options are given. -/
theorem reads_written {level : Level} {g : Given} {settings : List Setting} {args : List String}
    (h : Written settings args) {s : Scan} (opts : List Opt) (hs : s.Holds (g.only opts))
    (hlevel : ∀ x ∈ settings, x.opt ∈ level.options) (hplain : ∀ x ∈ settings, x.Plain)
    (htells : ∀ x ∈ settings, g.Tells x) (honce : (opts ++ settings.map Setting.opt).Nodup) :
    s.Reads level args (g.only (opts ++ settings.map Setting.opt)) := by
  induction h generalizing s opts with
  | nil => simpa using reads_nil hs
  | @cons x args hx rest args' hrest ih =>
    simp only [List.forall_mem_cons] at hlevel hplain htells
    have honce' : ((opts ++ [x.opt]) ++ rest.map Setting.opt).Nodup := by simpa using honce
    have hnew : x.opt ∉ opts := fun hmem =>
      (List.nodup_append.mp honce).2.2 _ hmem _ List.mem_cons_self rfl
    have hgive := Given.give_only htells.1 hplain.1 hnew
    refine (reads_spelling hs hlevel.1 hplain.1 hgive hx).append ?_
    intro between hbetween
    simpa using ih (opts ++ [x.opt]) hbetween hlevel.2 hplain.2 htells.2 honce'

/-- From the start of a level, settings of its options give a part of what is chosen. -/
theorem reads_start {level : Level} {g : Given} {settings : List Setting} {args : List String}
    (h : Written settings args) (hlevel : ∀ x ∈ settings, x.opt ∈ level.options)
    (hplain : ∀ x ∈ settings, x.Plain) (htells : ∀ x ∈ settings, g.Tells x)
    (honce : (settings.map Setting.opt).Nodup) :
    Scan.start.Reads level args (g.only (settings.map Setting.opt)) :=
  reads_written h [] (holds_settled .empty) hlevel hplain htells honce

/-! ## Whole command lines -/

/-- **All command lines of a choice are understood, and all of them as that choice**: the values
are those that were chosen, with defaults for the options that were not. The order of the options,
their side of the command and the way each one is written leave no trace. -/
theorem parse_spelled {g : Given} {c : Option CommandName} {args : List String}
    (h : Spells g c args) :
    parse args = .ok
      { config := g.config
        servicePath := g.servicePath.getD "."
        stage := g.stage
        allowModules := g.allowModules
        verbose := g.verbose
        log := g.log.getD .stderr
        command := c.map fun
          | .merged => .merged
          | .computed => .computed
          | .render => .render (g.format.getD .json) g.output } := by
  show scanRoot .start args = .ok (g.invocation c)
  cases h with
  | alone hchosen hglobal hwritten =>
    have hreads := reads_start hwritten
      (fun x hx => Opt.mem_options_of_isGlobal (hglobal x hx) .root) hchosen.plain hchosen.tells
      hchosen.once
    rw [Given.only_of_complete hchosen.complete] at hreads
    exact scanRoot_reads hreads
  | @command c before after hchosen hbefore hafter front back hfront hback =>
    obtain ⟨honce, hplain, htells, hcomplete⟩ := hchosen
    rw [List.map_append] at honce hcomplete
    rw [List.forall_mem_append] at hplain htells
    obtain ⟨honceBefore, honceAfter, -⟩ := List.nodup_append.mp honce
    have houter := reads_start hfront
      (fun x hx => Opt.mem_options_of_isGlobal (hbefore x hx) .root) hplain.1 htells.1 honceBefore
    have hlevel (x : Setting) (hx : x ∈ after) : x.opt ∈ (Level.command c).options :=
      (hafter x hx).elim (Opt.mem_options_of_isGlobal · _) Opt.mem_options_of_owns
    have hinner := reads_start hback hlevel hplain.2 htells.2 honceAfter
    rw [scanRoot_command houter hinner, Given.only_overlaidBy, Given.only_of_complete hcomplete]

/-- A choice in which a value is the name of another command. -/
def mergedRendering : Given where
  config := none
  servicePath := none
  stage := some "merged"
  allowModules := false
  verbose := true
  log := some .off
  format := some .yaml
  output := none

theorem mergedRendering_chooses {settings : List Setting}
    (hopts : (settings.map Setting.opt).Perm [.verbose, .stage, .format, .log])
    (hplain : ∀ x ∈ settings, x.Plain) (htells : ∀ x ∈ settings, mergedRendering.Tells x) :
    mergedRendering.Chooses settings where
  once := hopts.nodup_iff.mpr (by decide)
  plain := hplain
  tells := htells
  complete o h := hopts.mem_iff.mpr <| by
    cases o <;> simp_all [Given.Gives, mergedRendering]

/-- Two lines of this choice, in different orders and different ways, with options on either side
of the command. -/
theorem parse_spelled_mergedRendering :
    (Spells mergedRendering (some .render)
        ["-v", "--stage", "merged", "render", "-fYaML", "--log=0"] ∧
      Spells mergedRendering (some .render)
        ["-l", "off", "render", "--format=yml", "--verbose", "-smerged"]) ∧
    parse ["-v", "--stage", "merged", "render", "-fYaML", "--log=0"]
      = .ok ⟨none, ".", some "merged", false, true, .off, some (.render .yaml none)⟩ ∧
    parse ["-l", "off", "render", "--format=yml", "--verbose", "-smerged"]
      = .ok ⟨none, ".", some "merged", false, true, .off, some (.render .yaml none)⟩ := by
  have hyaml {text : String} (h : TextFormat.lowered text ∈ TextFormat.yaml.names) :
      mergedRendering.Tells ⟨.format, text⟩ := ⟨.yaml, h, rfl⟩
  have hoff {text : String} (h : DiagnosticTarget.ofText text = .ok .off) :
      mergedRendering.Tells ⟨.log, text⟩ := ⟨.off, h, rfl⟩
  have hfirst : Spells mergedRendering (some .render)
      ["-v", "--stage", "merged", "render", "-fYaML", "--log=0"] := by
    have htells : ∀ x ∈ [⟨.verbose, ""⟩, ⟨.stage, "merged"⟩, ⟨.format, "YaML"⟩, ⟨.log, "0"⟩],
        mergedRendering.Tells x := by
      simp only [List.forall_mem_cons]
      exact ⟨rfl, rfl, hyaml (by decide), hoff rfl, nofun⟩
    have hchosen := mergedRendering_chooses (by decide)
      (by simp [Setting.Plain, Opt.arity, IsValue]) htells
    have hfront : Written [⟨.verbose, ""⟩, ⟨.stage, "merged"⟩] _ :=
      .cons (.flagShort rfl rfl) (.cons (.longNext rfl) .nil)
    have hback : Written [⟨.format, "YaML"⟩, ⟨.log, "0"⟩] _ :=
      .cons (.shortJoined rfl rfl) (.cons (.longJoined rfl) .nil)
    exact .command hchosen (by simp [Opt.IsGlobal]) (by simp [Opt.IsGlobal, CommandName.Owns])
      hfront hback
  have hsecond : Spells mergedRendering (some .render)
      ["-l", "off", "render", "--format=yml", "--verbose", "-smerged"] := by
    have htells : ∀ x ∈ [⟨.log, "off"⟩, ⟨.format, "yml"⟩, ⟨.verbose, ""⟩, ⟨.stage, "merged"⟩],
        mergedRendering.Tells x := by
      simp only [List.forall_mem_cons]
      exact ⟨hoff rfl, hyaml (by decide), rfl, rfl, nofun⟩
    have hchosen := mergedRendering_chooses (by decide)
      (by simp [Setting.Plain, Opt.arity, IsValue]) htells
    have hfront : Written [⟨.log, "off"⟩] _ := .cons (.shortNext rfl rfl) .nil
    have hback : Written [⟨.format, "yml"⟩, ⟨.verbose, ""⟩, ⟨.stage, "merged"⟩] _ :=
      .cons (.longJoined rfl) (.cons (.flagLong rfl) (.cons (.shortJoined rfl rfl) .nil))
    exact .command hchosen (by simp [Opt.IsGlobal]) (by simp [Opt.IsGlobal, CommandName.Owns])
      hfront hback
  exact ⟨⟨hfirst, hsecond⟩, parse_spelled hfirst, parse_spelled hsecond⟩

end CommandLine

end StageVars

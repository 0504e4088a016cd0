import StageVars.CommandLine.Options
/-!
# StageVars.Proofs.CommandLine.Settings -- options with what is written for them

A setting is an option with a text. What the settings of a command line give does not depend on
their order: whatever part of them has been read, it gives that part of what they give together,
and so do two parts laid one over the other.

* `Given.Chooses`: settings that give certain options, each once.
* `Given.only`: a part of the options that are given.
* `Given.give_only`, `Given.only_overlaidBy`: one more setting, and two parts together.
-/

namespace StageVars

/-- The names of a format. -/
def TextFormat.names : TextFormat → List String
  | .json => ["json"]
  | .yaml => ["yaml", "yml"]

/-- A format is named by its names in any case of letters. -/
theorem TextFormat.ofName?_eq_some_iff (s : String) (f : TextFormat) :
    ofName? s = some f ↔ lowered s ∈ f.names := by
  rw [ofName?]
  split <;> cases f <;> simp_all [names]

namespace CommandLine

/-! ## Settings -/

/-- An option with the text that is written for it. -/
structure Setting where
  opt : Opt
  text : String
deriving DecidableEq, Repr

/-- A text that can be written as a value: it is not empty, and no dash and no equals sign is in
front. -/
def IsValue (text : String) : Prop :=
  text ≠ "" ∧ text.toList.head? ≠ some '-' ∧ text.toList.head? ≠ some '='

/-- Nothing is written for a flag, and a value for any other option. -/
def Setting.Plain (x : Setting) : Prop :=
  match x.opt.arity with
  | .flag => x.text = ""
  | .value => IsValue x.text

namespace Given

/-- A setting says what is given for its option. -/
def Tells (g : Given) (x : Setting) : Prop :=
  match x.opt with
  | .config => g.config = some x.text
  | .servicePath => g.servicePath = some x.text
  | .stage => g.stage = some x.text
  | .allowModules => g.allowModules = true
  | .verbose => g.verbose = true
  | .log => ∃ target, DiagnosticTarget.ofText x.text = .ok target ∧ g.log = some target
  | .format => ∃ f : TextFormat, TextFormat.lowered x.text ∈ f.names ∧ g.format = some f
  | .output => g.output = some x.text
  | .help | .version => False

/-- An option is given. -/
def Gives (g : Given) : Opt → Prop
  | .config => g.config.isSome
  | .servicePath => g.servicePath.isSome
  | .stage => g.stage.isSome
  | .allowModules => g.allowModules = true
  | .verbose => g.verbose = true
  | .log => g.log.isSome
  | .format => g.format.isSome
  | .output => g.output.isSome
  | .help | .version => False

/-- Settings that say what is given for all options that are given, for each of them once. -/
structure Chooses (g : Given) (settings : List Setting) : Prop where
  once : (settings.map Setting.opt).Nodup
  plain : ∀ x ∈ settings, x.Plain
  tells : ∀ x ∈ settings, g.Tells x
  complete : ∀ o, g.Gives o → o ∈ settings.map Setting.opt

/-! ## Parts of what is given -/

/-- What is given for some options. -/
def only (g : Given) (opts : List Opt) : Given where
  config := if .config ∈ opts then g.config else none
  servicePath := if .servicePath ∈ opts then g.servicePath else none
  stage := if .stage ∈ opts then g.stage else none
  allowModules := if .allowModules ∈ opts then g.allowModules else false
  verbose := if .verbose ∈ opts then g.verbose else false
  log := if .log ∈ opts then g.log else none
  format := if .format ∈ opts then g.format else none
  output := if .output ∈ opts then g.output else none

/-- All that is given is given for the options that are given. -/
theorem only_of_complete {g : Given} {opts : List Opt} (h : ∀ o, g.Gives o → o ∈ opts) :
    g.only opts = g := by
  have hkept {α : Type} {a : Option α} {o : Opt} (ho : a.isSome → o ∈ opts) :
      (if o ∈ opts then a else none) = a := by
    cases a with
    | none => exact ite_self none
    | some a => exact if_pos (ho rfl)
  have hflag {b : Bool} {o : Opt} (ho : b = true → o ∈ opts) :
      (if o ∈ opts then b else false) = b := by
    cases b with
    | false => exact ite_self false
    | true => exact if_pos (ho rfl)
  rw [only, hkept (h .config), hkept (h .servicePath), hkept (h .stage), hflag (h .allowModules),
    hflag (h .verbose), hkept (h .log), hkept (h .format), hkept (h .output)]

/-- Two parts laid one over the other are the part for the options of both. -/
theorem only_overlaidBy (g : Given) (outer inner : List Opt) :
    (g.only outer).overlaidBy (g.only inner) = g.only (outer ++ inner) := by
  have hkept {α : Type} (a : Option α) (o : Opt) :
      ((if o ∈ inner then a else none) <|> (if o ∈ outer then a else none))
        = if o ∈ outer ++ inner then a else none := by
    by_cases ho : o ∈ outer <;> by_cases hi : o ∈ inner <;> cases a <;> simp [ho, hi]
  have hflag (b : Bool) (o : Opt) :
      ((if o ∈ inner then b else false) || (if o ∈ outer then b else false))
        = if o ∈ outer ++ inner then b else false := by
    by_cases ho : o ∈ outer <;> by_cases hi : o ∈ inner <;> cases b <;> simp [ho, hi]
  simp only [overlaidBy, only, hkept, hflag]

/-- A place that has not been filled is filled. -/
theorem once_of_new {α : Type} {o : Opt} {opts : List Opt} (hnew : o ∉ opts) (held : Option α)
    (a : α) : once o (if o ∈ opts then held else none) (.ok a) = .ok (some a) := by
  rw [if_neg hnew]
  rfl

/-- One more setting gives its option, too. -/
theorem give_only {g : Given} {x : Setting} (htells : g.Tells x) (hplain : x.Plain)
    {opts : List Opt} (hnew : x.opt ∉ opts) :
    (g.only opts).give x.opt x.text = .ok (g.only (opts ++ [x.opt])) := by
  obtain ⟨o, text⟩ := x
  have hmem (o' : Opt) : o' ∈ opts ++ [o] ↔ o' ∈ opts ∨ o' = o := by simp
  cases o with
  | help | version => exact htells.elim
  | allowModules | verbose => simp_all [Tells, only, give]
  | config | stage =>
    simp only [Tells] at htells
    simp only [give, only, once_of_new hnew, hmem, htells, reduceCtorEq, or_false, or_true, if_true]
    rfl
  | servicePath | output =>
    have htext (o : Opt) : path o text = .ok text := if_neg (by simpa using hplain.1)
    simp only [Tells] at htells
    simp only [give, only, htext, once_of_new hnew, hmem, htells, reduceCtorEq, or_false, or_true,
      if_true]
    rfl
  | log =>
    obtain ⟨target, htarget, hlog⟩ := htells
    have hread : (DiagnosticTarget.ofText text).mapError (UsageError.badValue .log)
        = .ok target :=
      congrArg (Except.mapError _) htarget
    simp only [give, only, hread, once_of_new hnew, hmem, hlog, reduceCtorEq, or_false, or_true,
      if_true]
    rfl
  | format =>
    obtain ⟨f, hname, hformat⟩ := htells
    have hname := (TextFormat.ofName?_eq_some_iff text f).mpr hname
    simp only [give, only, hname, once_of_new hnew, hmem, hformat, reduceCtorEq, or_false, or_true,
      if_true]
    rfl

end Given

end CommandLine

end StageVars

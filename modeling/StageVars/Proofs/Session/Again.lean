import StageVars.Proofs.Compose.Values
import StageVars.Proofs.Merge.Replay
import StageVars.Proofs.Session.Start
/-!
# StageVars.Proofs.Session.Again -- starting once more

A session that starts on the service of a session before finds its sections composed
already. What they hold is merged with the same files again and comes out as it went in,
and the stage is still the same.

* `outcome_value_again`: composing what a value was composed to.
* `outcome_compose_again`: composing a service whose sections are composed.
* `start_again`: a start after a start.
-/

namespace StageVars

namespace Compose

open Composing

variable {files : FileView}

/-- A value that is no reference is kept, or its stem's files are looked for. -/
theorem kept_or_withFiles {literal : Option Value}
    (hliteral : literal.bind Reference.ofValue? = none) (stem stage : String)
    (strategy : Merge.Strategy) :
    value literal stem stage strategy = pure .kept
      ∨ value literal stem stage strategy = withFiles literal stem stage strategy := by
  match literal with
  | some (.bool _) | some (.number _) => exact Or.inl rfl
  | some (.string text) =>
    have hparse : Reference.parse? text = none := hliteral
    refine Or.inl ?_
    show referenced text stage strategy = _
    rw [referenced, hparse]
  | none | some .null | some (.object _) | some (.array _) => exact Or.inr rfl

/-- What a value is replaced by is replaced by itself. -/
theorem outcome_withFiles_again (hfiles : files.HoldsDistinct) {literal : Option Value}
    (hdistinct : ∀ v ∈ literal, v.DistinctKeys) {stem stage : String}
    {strategy : Merge.Strategy} {v : Value}
    (h : outcome files (withFiles literal stem stage strategy) = .ok (.replaced v)) :
    outcome files (value (some v) stem stage strategy) = .ok (.replaced v) := by
  rw [(composesFrom_withFiles files literal stem stage strategy).2] at h
  split at h
  · cases h
  next hsome =>
    obtain ⟨base, hbase, h⟩ := bind_eq_ok_iff.mp h
    obtain ⟨staged, hstaged, h⟩ := bind_eq_ok_iff.mp h
    obtain rfl : strategy.merge [some (contribution literal), base, staged] = v :=
      Change.replaced.inj (Except.ok.inj h)
    have hagain := Merge.merge_again strategy [some (contribution literal)] [base, staged]
      (by simpa using hereditary_contribution Value.hereditary_distinctKeys hdistinct)
      (by simpa using ⟨FileView.Holds.of_held hfiles hbase, FileView.Holds.of_held hfiles hstaged⟩)
    -- the second time the inline value is what the first time came to
    show outcome files (withFiles _ stem stage strategy) = _
    rw [(composesFrom_withFiles files _ stem stage strategy).2, if_neg hsome, hbase, hstaged]
    exact congrArg (Except.ok ∘ Change.replaced) hagain

/-- Composing what a value was composed to comes to the same. -/
theorem outcome_value_again (hfiles : files.HoldsDistinct) {literal : Option Value}
    (hliteral : literal.bind Reference.ofValue? = none)
    (hdistinct : ∀ v ∈ literal, v.DistinctKeys) {stem stage : String}
    {strategy : Merge.Strategy} {change : Change}
    (h : outcome files (value literal stem stage strategy) = .ok change) :
    outcome files (value (change.after literal) stem stage strategy) = .ok change := by
  cases change with
  | kept => exact h
  | replaced v =>
    rcases kept_or_withFiles hliteral stem stage strategy with hkept | hwith
    · rw [hkept] at h
      cases h
    · rw [hwith] at h
      exact outcome_withFiles_again hfiles hdistinct h

end Compose

namespace Service

open Composing

variable {files : FileView}

/-- Composing a service whose sections are composed comes to the same changes. -/
theorem outcome_compose_again (hfiles : files.HoldsDistinct) {s : Service}
    (hliteral : ∀ sec, (s.get? sec).bind Reference.ofValue? = none)
    (hdistinct : s.document.DistinctKeys) {stage : String} {c : Changes}
    (h : outcome files (s.compose stage) = .ok c) :
    outcome files ((s.apply c).compose stage) = .ok c := by
  rw [outcome_compose_eq_ok_iff] at h ⊢
  intro sec
  rw [get?_apply]
  exact Compose.outcome_value_again hfiles (hliteral sec)
    (hereditary_get? Value.hereditary_distinctKeys hdistinct sec) (h sec)

end Service

namespace Session

open Composing

variable {files : FileView} {s : Service}

/-- **A start after a start changes nothing.** If no section is a reference, starting once
more on the service of a start, with the same files and for the same stage asked for, comes
to what the first start came to: the same service to the last key, the same lines for the
operator, and the same session or the same failure. Files and the document name each key of
an object once, as all do that are read from a text. -/
theorem start_again (hfiles : files.HoldsDistinct)
    (hliteral : ∀ sec, (s.get? sec).bind Reference.ofValue? = none)
    (hdistinct : s.document.DistinctKeys) (asked : Option String) :
    (start ((start s asked).result files).service asked).result files
      = (start s asked).result files := by
  cases hcompose : outcome files (s.compose (s.stageFor asked)) with
  | error e =>
    -- a start that fails leaves the service as it was
    have hservice : ((start s asked).result files).service = s := by
      rw [result_start, hcompose]
    rw [hservice]
  | ok c =>
    have hagain := Service.outcome_compose_again hfiles hliteral hdistinct hcompose
    have hlog : startLog (s.apply c) = startLog s := by
      rw [startLog, startLog, Service.plugins_apply]
    rw [result_start files s, hcompose]
    show (start (s.apply c) asked).result files = _
    rw [result_start, Service.stageFor_apply, hagain]
    simp only [Service.apply_apply_self, hlog]

/-- Files of which one replaces an object by a number, and the next the number by an object. -/
def regrowingFiles : Fields :=
  [("./variables.yml", .object [("a", .number (.integer 5))]),
   ("./variables.dev.json", .object [("b", .null), ("a", .object [("y", .bool true)])]),
   ("./environment.js", .array [.string "on", .null])]

/-- A service without a stage whose provider is no object. -/
def providerless : Service :=
  ⟨.object [("provider", .string "aws"), ("custom", .object [("a", .object [("x", .null)])])]⟩

/-- The number makes way for the object again, and the array is spread again. -/
theorem start_again_regrowing :
    (FileView.ofFields regrowingFiles).HoldsDistinct
    ∧ (∀ sec, (providerless.get? sec).bind Reference.ofValue? = none)
    ∧ providerless.document.DistinctKeys
    ∧ ((start providerless none).result (FileView.ofFields regrowingFiles)).service
      = ⟨.object
        [("provider", .object [("environment", .object [("0", .string "on"), ("1", .null)])]),
         ("custom", .object [("a", .object [("y", .bool true)]), ("b", .null)])]⟩
    ∧ (start ((start providerless none).result (FileView.ofFields regrowingFiles)).service
        none).result (FileView.ofFields regrowingFiles)
      = (start providerless none).result (FileView.ofFields regrowingFiles) := by
  have hfiles : (FileView.ofFields regrowingFiles).HoldsDistinct :=
    FileView.holdsDistinct_ofFields (by decide)
  have hliteral : ∀ sec, (providerless.get? sec).bind Reference.ofValue? = none := by
    rintro (_ | _) <;> rfl
  have hdistinct : providerless.document.DistinctKeys := by decide
  exact ⟨hfiles, hliteral, hdistinct, by decide, start_again hfiles hliteral hdistinct none⟩

end Session

end StageVars

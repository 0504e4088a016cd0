import StageVars.Proofs.Compose.Resolution
import StageVars.Proofs.Files.Contents
import StageVars.Proofs.Reference.Written
/-!
# StageVars.Proofs.Compose.Spelling -- a section's own files, spelled out

A value that says nothing is composed from the files of its stem. The same files can be named
by a reference. Then the base file is not looked for but read at once, and so is the file of
the stage, which may not be there: it reads as nothing.

* `held_stagedOf`: the stage's file, whether it is there or not.
* `outcome_value_silent`: what a value that says nothing is composed to.
* `value_written_own_files`: the reference and the silent value are composed to the same.
-/

namespace StageVars

namespace Compose

open Composing

variable {files : FileView} {stem stage : String} {e : Extension}

/-- What stands in the document says nothing: it is missing, null or the empty object. -/
def Silent (literal : Option Value) : Prop :=
  literal = none ∨ literal = some .null ∨ literal = some .empty

/-- Where the base file and the file of a stage lie for one extension. -/
def OwnFiles (files : FileView) (stem stage : String) (e : Extension) : Prop :=
  baseOf files stem = some ("./" ++ stem ++ "." ++ e.name)
    ∧ (stagedOf files stem stage = none
      ∨ stagedOf files stem stage = some ("./" ++ stem ++ "." ++ stage ++ "." ++ e.name))

/-- What both files come to; a failure is that of the first that cannot be read. -/
def mergedOf (files : FileView) (stem stage : String) (e : Extension)
    (strategy : Merge.Strategy) : Except Failure Value := do
  let base ← files.content ("./" ++ stem ++ "." ++ e.name)
  let staged ← files.content ("./" ++ stem ++ "." ++ stage ++ "." ++ e.name)
  return strategy.merge [base, staged]

/-- To replace a value by what both files come to, each of them is read. -/
theorem map_mergedOf (files : FileView) (stem stage : String) (e : Extension)
    (strategy : Merge.Strategy) :
    (mergedOf files stem stage e strategy).map Change.replaced = do
      let base ← files.content ("./" ++ stem ++ "." ++ e.name)
      let staged ← files.content ("./" ++ stem ++ "." ++ stage ++ "." ++ e.name)
      return .replaced (strategy.merge [base, staged]) := by
  rw [mergedOf]
  cases files.content ("./" ++ stem ++ "." ++ e.name) with
  | error _ => rfl
  | ok base => cases files.content ("./" ++ stem ++ "." ++ stage ++ "." ++ e.name) <;> rfl

/-- A file of the stage that is not there can be read all the same. -/
theorem held_stagedOf (hfiles : files.MissingIsNothing) (e : Extension)
    (h : stagedOf files stem stage = none
      ∨ stagedOf files stem stage = some ("./" ++ stem ++ "." ++ stage ++ "." ++ e.name)) :
    files.held (stagedOf files stem stage)
      = files.content ("./" ++ stem ++ "." ++ stage ++ "." ++ e.name) := by
  rcases h with hnone | hsome
  · -- the search has asked for this path, too
    have hcandidate : "./" ++ stem ++ "." ++ stage ++ "." ++ e.name
        ∈ candidates ("./" ++ stem ++ "." ++ stage) := by
      refine List.mem_map_of_mem ?_
      cases e <;> decide
    have habsent := List.find?_eq_none.mp hnone _ hcandidate
    rw [hnone, hfiles _ (Bool.eq_false_iff.mpr habsent)]
    rfl
  · rw [hsome]
    rfl

/-- An empty object contributes nothing. -/
theorem merge_empty_cons (strategy : Merge.Strategy) (sources : List (Option Value)) :
    strategy.merge (some .empty :: sources) = strategy.merge sources := by
  cases strategy <;> rfl

/-- A value that says nothing is composed to what its own files come to. -/
theorem outcome_value_silent (hfiles : files.MissingIsNothing) (hown : OwnFiles files stem stage e)
    {literal : Option Value} (hsilent : Silent literal) (strategy : Merge.Strategy) :
    outcome files (value literal stem stage strategy)
      = (mergedOf files stem stage e strategy).map .replaced := by
  have hvalue : value literal stem stage strategy = withFiles literal stem stage strategy := by
    rcases hsilent with rfl | rfl | rfl <;> rfl
  have hempty : contribution literal = .empty := by
    rcases hsilent with rfl | rfl | rfl <;> rfl
  obtain ⟨hbase, hstaged⟩ := hown
  have hfound : ¬ (baseOf files stem = none ∧ stagedOf files stem stage = none) := by
    rw [hbase]
    rintro ⟨⟨⟩, -⟩
  rw [map_mergedOf, hvalue, (composesFrom_withFiles files literal stem stage strategy).2,
    if_neg hfound, held_stagedOf hfiles e hstaged, hbase, hempty]
  simp only [merge_empty_cons, FileView.held]

/-- A reference to the base file is composed to what it and the stage's file come to. -/
theorem outcome_value_written (files : FileView) (hclear : '\n' ∉ stem.toList) (e : Extension)
    (other stage : String) (strategy : Merge.Strategy) :
    outcome files
        (value (some (.string (Reference.written ("./" ++ stem ++ "." ++ e.name) none))) other
          stage strategy)
      = (mergedOf files stem stage e strategy).map .replaced := by
  have hname : "./" ++ stem ≠ "" := by simp
  have hclear' : '\n' ∉ ("./" ++ stem).toList := by
    rw [String.toList_append]
    exact fun hmem => (List.mem_append.mp hmem).elim (by decide) hclear
  have hmember : ∀ m ∈ (none : Option String), '\n' ∉ m.toList ∧ ')' ∉ m.toList := nofun
  obtain ⟨r, hr, hpath, -, hsibling⟩ := Reference.parse?_written hname hclear' e hmember
  show outcome files (referenced _ stage strategy) = _
  rw [map_mergedOf, outcome_referenced files hr, hpath, hsibling]

/-- **A reference to a section's own files is composed to what the section is without it.**
For any stem without a line feed, if the base file of a stem is found under an extension and
the file of the stage under the same one or not at all, then a reference to the base file and
a value that says nothing come to the same merged value, or to the same failure. Neither is
kept. -/
theorem value_written_own_files (dir : ServiceFiles) {stem stage : String} {e : Extension}
    {literal : Option Value} (hclear : '\n' ∉ stem.toList) (hsilent : Silent literal)
    (hbase : (Lookup.locate (some ("./" ++ stem))).result dir.view
      = some ("./" ++ stem ++ "." ++ e.name))
    (hstaged : (Lookup.locate (some ("./" ++ stem ++ "." ++ stage))).result dir.view = none
      ∨ (Lookup.locate (some ("./" ++ stem ++ "." ++ stage))).result dir.view
        = some ("./" ++ stem ++ "." ++ stage ++ "." ++ e.name))
    (other : String) (strategy : Merge.Strategy) :
    ∃ merged : Except Failure Value,
      outcome dir.view
          (value (some (.string (Reference.written ("./" ++ stem ++ "." ++ e.name) none))) other
            stage strategy)
        = merged.map .replaced
      ∧ outcome dir.view (value literal stem stage strategy) = merged.map .replaced := by
  rw [Lookup.result_locate _ (by simp)] at hbase hstaged
  exact ⟨_, outcome_value_written dir.view hclear e other stage strategy,
    outcome_value_silent dir.missingIsNothing_view ⟨hbase, hstaged⟩ hsilent strategy⟩

/-- Files of a stem with points, a slash and parentheses. -/
def spelledFiles : ServiceFiles :=
  ServiceFiles.ofDirectory ⟨
    [(["c.d", "vars(1).json"], .file (some "\x7b\"a\": [0], \"b\": true\x7d")),
     (["c.d", "vars(1).dev.json"], .file (some "\x7b\"a\": null\x7d"))], []⟩

/-- The parenthesis in the stem does not end the path of the reference. -/
theorem value_written_own_files_parenthesized :
    '\n' ∉ "c.d/vars(1)".toList ∧ Silent (some .null)
    ∧ (Lookup.locate (some ("./" ++ "c.d/vars(1)"))).result spelledFiles.view
      = some ("./" ++ "c.d/vars(1)" ++ "." ++ Extension.json.name)
    ∧ (Lookup.locate (some ("./" ++ "c.d/vars(1)" ++ "." ++ "dev"))).result spelledFiles.view
      = some ("./" ++ "c.d/vars(1)" ++ "." ++ "dev" ++ "." ++ Extension.json.name)
    ∧ (outcome spelledFiles.view (value (some .null) "c.d/vars(1)" "dev" .deep)).toOption
      = some (.replaced (.object [("a", .null), ("b", .bool true)]))
    ∧ ∃ merged : Except Failure Value,
      outcome spelledFiles.view
          (value (some (.string (Reference.written
            ("./" ++ "c.d/vars(1)" ++ "." ++ Extension.json.name) none))) "variables" "dev" .deep)
        = merged.map .replaced
      ∧ outcome spelledFiles.view (value (some .null) "c.d/vars(1)" "dev" .deep)
        = merged.map .replaced := by
  have hclear : '\n' ∉ "c.d/vars(1)".toList := by decide +kernel
  have hbase : (Lookup.locate (some ("./" ++ "c.d/vars(1)"))).result spelledFiles.view
      = some ("./" ++ "c.d/vars(1)" ++ "." ++ Extension.json.name) := by decide +kernel
  have hstaged :
      (Lookup.locate (some ("./" ++ "c.d/vars(1)" ++ "." ++ "dev"))).result spelledFiles.view
        = some ("./" ++ "c.d/vars(1)" ++ "." ++ "dev" ++ "." ++ Extension.json.name) := by
    decide +kernel
  have hmerged :
      (outcome spelledFiles.view (value (some .null) "c.d/vars(1)" "dev" .deep)).toOption
        = some (.replaced (.object [("a", .null), ("b", .bool true)])) := by decide +kernel
  have hsilent : Silent (some .null) := Or.inr (Or.inl rfl)
  exact ⟨hclear, hsilent, hbase, hstaged, hmerged,
    value_written_own_files spelledFiles hclear hsilent hbase (Or.inr hstaged) "variables" .deep⟩

end Compose

end StageVars

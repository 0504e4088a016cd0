import StageVars.Merge
import StageVars.Proofs.Value.Hereditary
/-!
# StageVars.Proofs.Merge.Keys -- what a merge gets from its sources

A merge writes entry by entry, so it has every hereditary property that its sources have,
whatever the strategy: it names each key once if they do, and its numbers fit if theirs do. From
a source that it does not heed it gets nothing at all.

* `hereditary_deepOver`, `hereditary_deepFields`: one tree or object laid over another.
* `hereditary_step` for one source and `hereditary_merge` for all of them.
* `merge_eq_of_sublist`: sources that are not heeded may be left out.
-/

namespace StageVars

namespace Merge

open Value (Hereditary)

variable {P : Value → Prop}

mutual

/-- One tree laid over another passes a property on. -/
theorem hereditary_deepOver (hP : Hereditary P) (before : Option Value) (value : Value)
    (hbefore : ∀ v ∈ before, P v) (hvalue : P value) : P (deepOver before value) := by
  match value with
  | .null | .bool _ | .number _ | .string _ | .array _ => exact hvalue
  | .object incoming =>
    rw [deepOver.eq_def]
    match before with
    | some (.object existing) =>
      exact hereditary_deepFields hP existing incoming (hbefore _ rfl) (hP.entry hvalue)
    | none | some .null | some (.bool _) | some (.number _) | some (.string _)
    | some (.array _) => exact hvalue
termination_by structural value

/-- Entries laid over an object pass a property on. -/
theorem hereditary_deepFields (hP : Hereditary P) (target source : Fields)
    (htarget : P (.object target)) (hsource : ∀ entry ∈ source, P entry.2) :
    P (.object (deepFields target source)) := by
  match source with
  | [] =>
    rw [deepFields]
    exact htarget
  | (key, value) :: rest =>
    obtain ⟨hvalue, hrest⟩ := List.forall_mem_cons.mp hsource
    rw [deepFields]
    have hover := hereditary_deepOver hP (Fields.get? target key) value
      (fun v hv => hP.get? htarget hv) hvalue
    exact hereditary_deepFields hP _ rest (hP.insert htarget key hover) hrest
termination_by structural source

end

/-- One more source passes a property on to the object so far. -/
theorem hereditary_step (hP : Hereditary P) (strategy : Strategy) {merged : Fields}
    {source : Option Value} (hmerged : P (.object merged)) (hsource : ∀ v ∈ source, P v) :
    P (.object (strategy.step merged source)) := by
  match source with
  | some (.object fields) =>
    have hfields := hP.entry (hsource _ rfl)
    cases strategy with
    | deep => exact hereditary_deepFields hP merged fields hmerged hfields
    | shallow => exact hP.insertAll hmerged hfields
  | some (.array items) =>
    cases strategy with
    | deep => exact hmerged
    | shallow =>
      refine hP.insertAll hmerged ?_
      intro entry hentry
      obtain ⟨⟨item, index⟩, hitem, rfl⟩ := List.mem_map.mp hentry
      exact (hP.array_iff items).mp (hsource _ rfl) item (List.fst_mem_of_mem_zipIdx hitem)
  | none | some .null | some (.bool _) | some (.number _) | some (.string _) => exact hmerged

/-- A merge has every hereditary property that its sources have. -/
theorem hereditary_merge (hP : Hereditary P) (strategy : Strategy) {sources : List (Option Value)}
    (hsources : ∀ s ∈ sources, ∀ v ∈ s, P v) : P (strategy.merge sources) := by
  -- for every object to begin with, since each source changes it
  suffices h : ∀ merged, P (.object merged) →
      P (.object (sources.foldl strategy.step merged)) from h [] hP.empty
  induction sources with
  | nil => exact fun merged hmerged => hmerged
  | cons source rest ih =>
    obtain ⟨hsource, hrest⟩ := List.forall_mem_cons.mp hsources
    intro merged hmerged
    exact ih hrest _ (hereditary_step hP strategy hmerged hsource)

/-! ## Sources that are not heeded -/

/-- Whether a source can make a difference: objects can, and arrays if the strategy spreads
them. -/
def Strategy.heeds : Strategy → Option Value → Bool
  | _, some (.object _) => true
  | .shallow, some (.array _) => true
  | _, _ => false

theorem step_of_not_heeds {strategy : Strategy} {source : Option Value}
    (h : strategy.heeds source = false) (merged : Fields) :
    strategy.step merged source = merged := by
  cases strategy <;> rcases source with _ | _ | _ | _ | _ | _ | _ <;> first | rfl | cases h

/-- Without the sources that are not heeded a merge comes to the same. -/
theorem foldl_step_filter_heeds (strategy : Strategy) (merged : Fields)
    (sources : List (Option Value)) :
    (sources.filter strategy.heeds).foldl strategy.step merged
      = sources.foldl strategy.step merged := by
  induction sources generalizing merged with
  | nil => rfl
  | cons source sources ih =>
    rw [List.foldl_cons]
    cases h : strategy.heeds source with
    | false => rw [List.filter_cons_of_neg (by simp [h]), step_of_not_heeds h, ih]
    | true => rw [List.filter_cons_of_pos h, List.foldl_cons, ih]

/-- Any of the sources that are not heeded may be left out. -/
theorem merge_eq_of_sublist (strategy : Strategy) {kept sources : List (Option Value)}
    (hkept : kept.Sublist sources) (hheeded : (sources.filter strategy.heeds).Sublist kept) :
    strategy.merge kept = strategy.merge sources := by
  have hfilter : (sources.filter strategy.heeds).Sublist (kept.filter strategy.heeds) := by
    simpa using hheeded.filter strategy.heeds
  have hsame : kept.filter strategy.heeds = sources.filter strategy.heeds :=
    (hkept.filter strategy.heeds).antisymm hfilter
  rw [Strategy.merge, Strategy.merge, ← foldl_step_filter_heeds strategy [] kept, hsame,
    foldl_step_filter_heeds]

end Merge

end StageVars

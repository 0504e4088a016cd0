import StageVars.Proofs.Merge.Layers
/-!
# StageVars.Proofs.Merge.Replay -- merging the same sources once more

Whatever the strategy, a source contributes entries, and a merge lays these over one
another. A merge can go on from what it has come to, and the same sources once more change
nothing: what the first of them undo, the last of them do again.

* `merge_some_merge_cons`: a merge goes on from its own result.
* `foldl_step_again`: the same sources once more.
* `merge_again`: a merge with its own last sources laid over it again.
* `merge_replayed`: a list of sources with its last members once more behind it.
-/

namespace StageVars

namespace Merge

/-! ## What a source contributes -/

/-- The entries that a source contributes. -/
def Strategy.contribution (strategy : Strategy) : Option Value → Fields
  | some (.object fields) => fields
  | some (.array items) =>
    match strategy with
    | .deep => []
    | .shallow => byIndex items
  | _ => []

theorem step_deep (merged : Fields) (source : Option Value) :
    Strategy.deep.step merged source = deepFields merged (Strategy.deep.contribution source) := by
  rcases source with _ | _ | _ | _ | _ | _ | _
  case some.object => rfl
  all_goals exact (deepFields_nil merged).symm

theorem step_shallow (merged : Fields) (source : Option Value) :
    Strategy.shallow.step merged source
      = Fields.insertAll merged (Strategy.shallow.contribution source) := by
  rcases source with _ | _ | _ | _ | _ | _ | _ <;> rfl

/-- A deep merge of sources lays their contributions over one another. -/
theorem foldl_step_deep (merged : Fields) (sources : List (Option Value)) :
    sources.foldl Strategy.deep.step merged
      = layered merged (sources.map Strategy.deep.contribution) := by
  have hstep : Strategy.deep.step = fun m s => deepFields m (Strategy.deep.contribution s) :=
    funext₂ step_deep
  rw [layered, List.foldl_map, hstep]

/-- A shallow merge of sources writes their contributions one after the other. -/
theorem foldl_step_shallow (merged : Fields) (sources : List (Option Value)) :
    sources.foldl Strategy.shallow.step merged
      = Fields.insertAll merged (sources.flatMap Strategy.shallow.contribution) := by
  induction sources generalizing merged with
  | nil => rfl
  | cons source sources ih =>
    rw [List.foldl_cons, ih, step_shallow, List.flatMap_cons, Fields.insertAll_append]

theorem distinctKeys_contribution_deep {source : Option Value}
    (h : ∀ v ∈ source, v.DistinctKeys) :
    (Value.object (Strategy.deep.contribution source)).DistinctKeys := by
  rcases source with _ | _ | _ | _ | _ | _ | _
  case some.object => exact h _ rfl
  all_goals exact Value.distinctKeys_empty

/-! ## Going on from a merge -/

/-- Whatever the sources are, a merge names each of its own keys once. -/
theorem nodup_keys_foldl_step (strategy : Strategy) {merged : Fields}
    (h : (Fields.keys merged).Nodup) (sources : List (Option Value)) :
    (Fields.keys (sources.foldl strategy.step merged)).Nodup := by
  cases strategy with
  | deep =>
    rw [foldl_step_deep, keys_layered h]
    exact nodup_eraseDups _
  | shallow =>
    rw [foldl_step_shallow, Fields.keys_insertAll h]
    exact nodup_eraseDups _

/-- An object with distinct keys is what a merge of it alone comes to. -/
theorem step_nil_object (strategy : Strategy) {fields : Fields}
    (h : (Fields.keys fields).Nodup) : strategy.step [] (some (.object fields)) = fields := by
  cases strategy with
  | deep => exact deepFields_nil_left h
  | shallow => exact Fields.insertAll_of_nodup h

/-- A merge goes on from its own result. -/
theorem merge_some_merge_cons (strategy : Strategy) (xs ys : List (Option Value)) :
    strategy.merge (some (strategy.merge xs) :: ys) = strategy.merge (xs ++ ys) := by
  have hnodup := nodup_keys_foldl_step strategy Value.distinctKeys_empty.nodup xs
  rw [Strategy.merge, Strategy.merge, Strategy.merge, List.foldl_cons,
    step_nil_object strategy hnodup, List.foldl_append]

/-! ## The same sources once more -/

/-- The same sources once more change nothing. -/
theorem foldl_step_again (strategy : Strategy) {merged : Fields} {sources : List (Option Value)}
    (hmerged : (Value.object merged).DistinctKeys)
    (hsources : ∀ s ∈ sources, ∀ v ∈ s, v.DistinctKeys) :
    sources.foldl strategy.step (sources.foldl strategy.step merged)
      = sources.foldl strategy.step merged := by
  cases strategy with
  | deep =>
    rw [foldl_step_deep, foldl_step_deep]
    refine layered_layered_self hmerged fun layer hlayer => ?_
    obtain ⟨source, hsource, rfl⟩ := List.mem_map.mp hlayer
    exact distinctKeys_contribution_deep (hsources source hsource)
  | shallow =>
    rw [foldl_step_shallow, foldl_step_shallow]
    exact Fields.insertAll_insertAll_self hmerged.nodup _

/-- The last sources once more change nothing of what all sources have come to. -/
theorem foldl_step_last_again (strategy : Strategy) {xs ys : List (Option Value)}
    (hxs : ∀ s ∈ xs, ∀ v ∈ s, v.DistinctKeys) (hys : ∀ s ∈ ys, ∀ v ∈ s, v.DistinctKeys) :
    ys.foldl strategy.step ((xs ++ ys).foldl strategy.step [])
      = (xs ++ ys).foldl strategy.step [] := by
  have hmerged : (Value.object (xs.foldl strategy.step [])).DistinctKeys :=
    hereditary_merge Value.hereditary_distinctKeys strategy hxs
  rw [List.foldl_append, foldl_step_again strategy hmerged hys]

/-- A merge with its own last sources laid over it again is the merge. -/
theorem merge_again (strategy : Strategy) (xs ys : List (Option Value))
    (hxs : ∀ s ∈ xs, ∀ v ∈ s, v.DistinctKeys) (hys : ∀ s ∈ ys, ∀ v ∈ s, v.DistinctKeys) :
    strategy.merge (some (strategy.merge (xs ++ ys)) :: ys) = strategy.merge (xs ++ ys) := by
  rw [merge_some_merge_cons, Strategy.merge, Strategy.merge, List.foldl_append,
    foldl_step_last_again strategy hxs hys]

/-- **Replaying the last sources changes nothing.** Whatever the strategy, a list of sources may
be followed by its own last members once more: what the first of these undo, the others do again,
and no key changes its place at any level. -/
theorem merge_replayed (strategy : Strategy) {xs ys : List (Option Value)}
    (hxs : ∀ s ∈ xs, ∀ v ∈ s, v.DistinctKeys) (hys : ∀ s ∈ ys, ∀ v ∈ s, v.DistinctKeys) :
    strategy.merge (xs ++ ys ++ ys) = strategy.merge (xs ++ ys) := by
  rw [Strategy.merge, Strategy.merge, List.foldl_append, foldl_step_last_again strategy hxs hys]

/-- A source with an object two levels down. -/
def planted : List (Option Value) :=
  [some (.object [("a", .object [("b", .object [("x", .null)]), ("c", .null)])])]

/-- Sources that cut this object down, let it grow anew and replace one level of it. -/
def replanted : List (Option Value) :=
  [some (.object [("a", .bool false)]), some (.array [.null]),
   some (.object [("d", .null), ("a", .object [("c", .object []), ("b", .string "")])]), none,
   some (.object [("a", .object [("b", .object [("y", .null)])])])]

/-- The object is cut down once more, and grows to the same again. -/
theorem merge_replayed_replanted :
    (∀ s ∈ planted, ∀ v ∈ s, v.DistinctKeys) ∧ (∀ s ∈ replanted, ∀ v ∈ s, v.DistinctKeys)
      ∧ Strategy.deep.merge (planted ++ replanted ++ replanted)
        = .object [("a", .object [("c", .object []), ("b", .object [("y", .null)])]), ("d", .null)]
      ∧ Strategy.shallow.merge (planted ++ replanted ++ replanted)
        = .object [("a", .object [("b", .object [("y", .null)])]), ("0", .null), ("d", .null)] := by
  have hplanted : ∀ s ∈ planted, ∀ v ∈ s, v.DistinctKeys := by decide
  have hreplanted : ∀ s ∈ replanted, ∀ v ∈ s, v.DistinctKeys := by decide
  refine ⟨hplanted, hreplanted, ?_, ?_⟩
  · rw [merge_replayed .deep hplanted hreplanted]
    decide
  · rw [merge_replayed .shallow hplanted hreplanted]
    decide

end Merge

end StageVars

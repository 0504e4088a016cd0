import StageVars.Proofs.Merge.Replay
/-!
# StageVars.Proofs.Merge.Blocks -- merging a list of sources block by block

The first sources of a list may be merged on their own, since a merge goes on from its own
result. Where nothing grows together, in a shallow merge, this is so for every block of the list:
to write down its entries, or the object that they make, is the same to what is there before. And
a deep merge of objects lays them over one another, from the empty object on.

* `step_shallow_merge`: one block of a shallow merge.
* `foldl_deep_objects`: objects over one another.
* `merge_in_blocks`: all of this for lists of sources.
-/

namespace StageVars

namespace Merge

/-! ## Blocks of a shallow merge -/

/-- A block of sources, merged on its own, makes the same difference to what is there before. -/
theorem step_shallow_merge {merged : Fields} (h : (Fields.keys merged).Nodup)
    (sources : List (Option Value)) :
    Strategy.shallow.step merged (some (Strategy.shallow.merge sources))
      = sources.foldl Strategy.shallow.step merged := by
  rw [foldl_step_shallow, step_shallow, Strategy.merge, foldl_step_shallow]
  exact Fields.insertAll_ofEntries h _

/-! ## Objects over one another -/

/-- A deep merge of objects lays them over one another. -/
theorem foldl_deep_objects (target : Fields) (objects : List Fields) :
    (objects.map .object).foldl deep (.object target)
      = .object ((objects.map fun o => some (.object o)).foldl Strategy.deep.step target) := by
  induction objects generalizing target with
  | nil => rfl
  | cons o objects ih =>
    rw [List.map_cons, List.map_cons, List.foldl_cons, List.foldl_cons, deep,
      deepOver_object_object, ih]
    rfl

/-! ## Lists of sources -/

/-- **What makes no difference to a merge.** Whatever the strategy, the first sources may be
merged on their own, and any of the sources that are not heeded may be left out, be it one of them
or all. In a shallow merge every block of sources may be merged on its own. A deep merge of objects
is what they come to when each is laid over those before it, beginning with the empty object. All
of this is to the order of the keys. -/
theorem merge_in_blocks (strategy : Strategy) (xs ys zs : List (Option Value)) :
    strategy.merge (xs ++ ys) = strategy.merge ([some (strategy.merge xs)] ++ ys)
      ∧ Strategy.shallow.merge (xs ++ ys ++ zs)
        = Strategy.shallow.merge (xs ++ [some (Strategy.shallow.merge ys)] ++ zs)
      ∧ strategy.merge (xs.filter strategy.heeds) = strategy.merge xs
      ∧ (∀ kept : List (Option Value), kept.Sublist xs →
        (xs.filter strategy.heeds).Sublist kept → strategy.merge kept = strategy.merge xs)
      ∧ ∀ objects : List Fields,
        Strategy.deep.merge (objects.map fun o => some (.object o))
          = (objects.map .object).foldl deep .empty := by
  refine ⟨?_, ?_, ?_, fun kept hsub hheeded => ?_, fun objects => ?_⟩
  · exact (merge_some_merge_cons strategy xs ys).symm
  · have hxs := nodup_keys_foldl_step .shallow Value.distinctKeys_empty.nodup xs
    rw [Strategy.merge, Strategy.merge, List.foldl_append, List.foldl_append, List.foldl_append,
      List.foldl_append, List.foldl_cons, List.foldl_nil, step_shallow_merge hxs]
  · exact merge_eq_of_sublist strategy List.filter_sublist (List.Sublist.refl _)
  · exact merge_eq_of_sublist strategy hsub hheeded
  · exact (foldl_deep_objects [] objects).symm

end Merge

end StageVars

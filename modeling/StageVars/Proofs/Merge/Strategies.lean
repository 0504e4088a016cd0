import StageVars.Proofs.Merge.Replay
/-!
# StageVars.Proofs.Merge.Strategies -- where the two strategies agree

The strategies part only where an object comes over another object: there the deep one lets them
grow together, and the shallow one replaces the first. Everywhere else the deep strategy replaces,
too, and so the value that comes last stands. Arrays apart, which only the shallow strategy spreads,
both write the same keys in the same order.

* `overlaid_eq_getLast?`: values of which at most one is an object replace one another.
* `get?_merge_agree`: one key on which the strategies agree.
* `strategies_agree`: all keys.
-/

namespace StageVars

namespace Merge

/-! ## What sources bind a key to -/

/-- Whether a source binds a key to an object. -/
def bindsObject (key : String) (source : Option Value) : Bool :=
  (source.bind (·.get? key)).any Value.isObject

/-- No source is an array. -/
def Arrayless (sources : List (Option Value)) : Prop :=
  ∀ source ∈ sources, ∀ items, source ≠ some (.array items)

variable {sources : List (Option Value)}

theorem contribution_eq_of_arrayless (h : Arrayless sources) :
    sources.map Strategy.shallow.contribution = sources.map Strategy.deep.contribution := by
  refine List.map_congr_left fun source hsource => ?_
  have harray := h source hsource
  rcases source with _ | _ | _ | _ | _ | items | _
  case some.array => exact absurd rfl (harray items)
  all_goals rfl

theorem get?_contribution_deep (source : Option Value) (key : String) :
    Fields.get? (Strategy.deep.contribution source) key = source.bind (·.get? key) := by
  rcases source with _ | _ | _ | _ | _ | _ | _ <;> rfl

/-- The values that sources bind a key to are counted as the sources are. -/
theorem countP_valuesAt (key : String) :
    (valuesAt (sources.map Strategy.deep.contribution) key).countP Value.isObject
      = sources.countP (bindsObject key) := by
  rw [valuesAt, List.countP_filterMap, List.countP_map]
  refine List.countP_congr fun source _ => ?_
  rw [Function.comp_apply, get?_contribution_deep, bindsObject]
  cases source.bind (·.get? key) <;> rfl

/-- A key that a source binds to an object is one of its keys. -/
theorem mem_keys_of_bindsObject {key : String} {source : Option Value}
    (h : bindsObject key source = true) : key ∈ Fields.keys (entriesOf source) := by
  obtain ⟨v, hv, -⟩ := Option.any_eq_true _ _ |>.mp h
  obtain ⟨w, rfl, hv⟩ := Option.bind_eq_some_iff.mp hv
  rw [← Fields.get?_isSome_iff]
  cases w with
  | object fields => exact Option.isSome_of_eq_some hv
  | _ => cases hv

/-- Sources that share no key bind none to an object twice. -/
theorem countP_bindsObject_le_one
    (h : sources.Pairwise fun s t =>
      (Fields.keys (entriesOf s)).Disjoint (Fields.keys (entriesOf t))) (key : String) :
    sources.countP (bindsObject key) ≤ 1 := by
  induction h with
  | nil => exact Nat.zero_le 1
  | @cons source rest hfirst _ ih =>
    rw [List.countP_cons]
    split
    next hbinds =>
      have hnone : rest.countP (bindsObject key) = 0 := by
        refine List.countP_eq_zero.mpr fun other hother hagain => ?_
        exact hfirst other hother (mem_keys_of_bindsObject hbinds) (mem_keys_of_bindsObject hagain)
      rw [hnone]
    next => exact ih

/-! ## Values over one another -/

/-- If at most one of some values is an object, each replaces those before it. -/
theorem overlaid_eq_getLast? {values : List Value} (h : values.countP Value.isObject ≤ 1) :
    overlaid none values = values.getLast? := by
  induction values using List.reverseRecOn with
  | nil => rfl
  | append_singleton values last ih =>
    rw [List.countP_append, List.countP_singleton] at h
    have hbefore : overlaid none values = values.getLast? := ih (by omega)
    have hlast : overlaid none (values ++ [last])
        = some (deepOver (overlaid none values) last) := List.foldl_append
    rw [hlast, List.getLast?_append, List.getLast?_singleton, Option.some_or, Option.some_inj]
    cases hobj : last.isObject with
    | false => exact deepOver_of_isObject_eq_false _ hobj
    | true =>
      -- the object is the only one, so it comes over nothing or over something else
      rw [hobj, if_pos rfl] at h
      have hnone : values.countP Value.isObject = 0 := by omega
      rw [hbefore]
      cases hvalues : values.getLast? with
      | none => exact deepOver_none last
      | some w =>
        have hw := List.countP_eq_zero.mp hnone w (List.mem_of_getLast? hvalues)
        exact deepOver_some_of_isObject_eq_false (Bool.not_eq_true _ ▸ hw) last

/-- Written one after the other, objects leave at a key the value that the last of them holds
there. -/
theorem get?_reverse_flatten {layers : List Fields}
    (h : ∀ layer ∈ layers, (Fields.keys layer).Nodup) (key : String) :
    Fields.get? layers.flatten.reverse key = (valuesAt layers key).getLast? := by
  induction layers using List.reverseRecOn with
  | nil => rfl
  | append_singleton layers last ih =>
    obtain ⟨hlayers, hlast⟩ := List.forall_mem_append.mp h
    have hvalues : valuesAt (layers ++ [last]) key
        = valuesAt layers key ++ (Fields.get? last key).toList := by
      rw [valuesAt, List.filterMap_append]
      cases hget : Fields.get? last key <;> simp [valuesAt, hget]
    rw [List.flatten_concat, List.reverse_append, Fields.get?_append,
      Fields.get?_reverse (hlast last (List.mem_singleton_self last)), ih hlayers, hvalues,
      List.getLast?_append]
    cases Fields.get? last key <;> rfl

/-! ## Both strategies -/

/-- What sources contribute to a deep merge, layer by layer. -/
theorem deep_merge_layers (sources : List (Option Value)) :
    Strategy.deep.merge sources
      = .object (layered [] (sources.map Strategy.deep.contribution)) :=
  congrArg Value.object (foldl_step_deep [] sources)

/-- Without arrays a shallow merge writes down the same layers. -/
theorem shallow_merge_layers (h : Arrayless sources) :
    Strategy.shallow.merge sources
      = .object (Fields.ofEntries (sources.map Strategy.deep.contribution).flatten) := by
  rw [Strategy.merge, foldl_step_shallow, List.flatMap_def, contribution_eq_of_arrayless h]
  rfl

theorem keys_flatten (layers : List Fields) :
    Fields.keys layers.flatten = layers.flatMap Fields.keys := by
  rw [Fields.keys, List.map_flatten, List.flatMap_def]
  rfl

/-- A key that at most one source binds to an object holds the same in both. -/
theorem get?_merge_agree {key : String}
    (hlayers : ∀ layer ∈ sources.map Strategy.deep.contribution, (Fields.keys layer).Nodup)
    (hkey : sources.countP (bindsObject key) ≤ 1) :
    Fields.get? (layered [] (sources.map Strategy.deep.contribution)) key
      = Fields.get? (Fields.ofEntries (sources.map Strategy.deep.contribution).flatten) key := by
  rw [get?_layered [] hlayers, Fields.get?_nil, Fields.get?_ofEntries,
    get?_reverse_flatten hlayers, overlaid_eq_getLast? (by rwa [countP_valuesAt])]

/-- **Where the strategies agree.** Without arrays among the sources, both strategies come to an
object with the same keys in the same order. A key that at most one source binds to an object
holds the same value in both, to the order of the keys within. If that is so of every key, as it
is if no two sources share a key, the two objects are equal. -/
theorem strategies_agree (harrays : Arrayless sources)
    (hsources : ∀ s ∈ sources, ∀ v ∈ s, v.DistinctKeys) :
    ∃ deep shallow, Strategy.deep.merge sources = .object deep
      ∧ Strategy.shallow.merge sources = .object shallow
      ∧ Fields.keys deep = Fields.keys shallow
      ∧ (∀ key, sources.countP (bindsObject key) ≤ 1 →
        Fields.get? deep key = Fields.get? shallow key)
      ∧ ((∀ key, sources.countP (bindsObject key) ≤ 1) → deep = shallow)
      ∧ ((sources.Pairwise fun s t =>
        (Fields.keys (entriesOf s)).Disjoint (Fields.keys (entriesOf t))) → deep = shallow) := by
  have hlayers : ∀ layer ∈ sources.map Strategy.deep.contribution, (Fields.keys layer).Nodup := by
    intro layer hlayer
    obtain ⟨source, hsource, rfl⟩ := List.mem_map.mp hlayer
    exact (distinctKeys_contribution_deep (hsources source hsource)).nodup
  have hnil : (Fields.keys []).Nodup := List.nodup_nil
  have hdeep := keys_layered hnil (sources.map Strategy.deep.contribution)
  have hkeys : Fields.keys (layered [] (sources.map Strategy.deep.contribution))
      = Fields.keys (Fields.ofEntries (sources.map Strategy.deep.contribution).flatten) := by
    rw [hdeep, Fields.keys_ofEntries, keys_flatten]
    rfl
  have hequal (h : ∀ key, sources.countP (bindsObject key) ≤ 1) :=
    Fields.ext_get? (hdeep ▸ nodup_eraseDups _) hkeys fun key => get?_merge_agree hlayers (h key)
  exact ⟨_, _, deep_merge_layers sources, shallow_merge_layers harrays, hkeys,
    fun _ => get?_merge_agree hlayers, hequal,
    fun hdisjoint => hequal (countP_bindsObject_le_one hdisjoint)⟩

/-- Sources that replace an object by a number and that by an object again, two levels of it. -/
def alternating : List (Option Value) :=
  [some (.object [("a", .number (.integer 1)), ("b", .object [("x", .object [])])]), none,
   some (.string "ignored"),
   some (.object [("b", .null), ("a", .object [("y", .array [.null]), ("x", .bool true)])]),
   some .null, some (.object [("c", .array []), ("b", .array [.object [("x", .null)]])])]

/-- No key is bound to an object twice, although both objects come over something else or
something else over them. -/
theorem strategies_agree_alternating :
    Arrayless alternating ∧ (∀ s ∈ alternating, ∀ v ∈ s, v.DistinctKeys)
      ∧ (∀ key, alternating.countP (bindsObject key) ≤ 1)
      ∧ Strategy.deep.merge alternating = Strategy.shallow.merge alternating
      ∧ Strategy.shallow.merge alternating
        = .object [("a", .object [("y", .array [.null]), ("x", .bool true)]),
          ("b", .array [.object [("x", .null)]]), ("c", .array [])] := by
  have harrays : Arrayless alternating := by simp [Arrayless, alternating]
  have hdistinct : ∀ s ∈ alternating, ∀ v ∈ s, v.DistinctKeys := by decide
  have honce : ∀ key, alternating.countP (bindsObject key) ≤ 1 := by
    intro key
    by_cases ha : "a" = key
    · subst ha
      decide
    · by_cases hb : "b" = key
      · subst hb
        decide
      · simp [alternating, bindsObject, Value.get?, Fields.get?, ha, hb,
          Nat.le_one_iff_eq_zero_or_eq_one]
  obtain ⟨deep, shallow, hdeep, hshallow, -, -, hequal, -⟩ := strategies_agree harrays hdistinct
  refine ⟨harrays, hdistinct, honce, ?_, by decide⟩
  rw [hdeep, hshallow, hequal honce]

end Merge

end StageVars

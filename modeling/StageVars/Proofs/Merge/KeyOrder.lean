import Mathlib.Data.List.DropRight
import StageVars.Proofs.Merge.Layers
import StageVars.Proofs.Merge.Paths
/-!
# StageVars.Proofs.Merge.KeyOrder -- the order of keys after a deep merge

A source that puts something other than an object on the way along a path, or at its end, clears
what stood there. Behind the last source that does so, the objects that the sources hold at the
path grow together: a key that is overridden keeps its place, and a new key comes last.

* `clears_iff_inits`: the form in which it is decided whether a source clears a path.
* `keysAt_merge_concat`: what one more source does to the keys at a path.
* `keysAt_merge`: the keys at a path after all sources.
* `deep_merge_keys`: the same of an object in a merge, and how its keys go on.
-/

namespace StageVars

namespace Merge

/-! ## What clears a path -/

/-- At the end of the path or on the way there, though not at its beginning, the source holds
something that is no object. -/
def Clears (source : Option Value) (path : List String) : Prop :=
  ∃ q, q <+: path ∧ q ≠ [] ∧ ∃ w, w.isObject = false ∧ Holds source q w

/-- The keys of the object that a source holds at a path, if it holds one there. -/
def keysAt (path : List String) (source : Option Value) : List String :=
  Fields.keys (entriesOf (source.bind (·.at? path)))

variable {source : Option Value} {path : List String}

/-- An object holds itself at the beginning of every path, so nothing is cleared there. -/
theorem ne_nil_of_holds {w : Value} (h : Holds source path w) (hw : w.isObject = false) :
    path ≠ [] := by
  rintro rfl
  obtain ⟨fields, -, hfields⟩ := h
  obtain rfl : Value.object fields = w := Option.some.inj hfields
  cases hw

theorem clears_iff :
    Clears source path ↔ (∃ w, w.isObject = false ∧ Holds source path w) ∨ Blocks source path := by
  constructor
  · rintro ⟨q, ⟨r, rfl⟩, hq, hw⟩
    cases r with
    | nil =>
      rw [List.append_nil]
      exact Or.inl hw
    | cons key r => exact Or.inr ⟨q, key :: r, rfl, hq, List.cons_ne_nil _ _, hw⟩
  · rintro (⟨w, hleaf, hw⟩ | ⟨q, r, rfl, hq, -, hw⟩)
    · exact ⟨path, List.prefix_rfl, ne_nil_of_holds hw hleaf, w, hleaf, hw⟩
    · exact ⟨q, List.prefix_append q r, hq, hw⟩

theorem clears_iff_inits :
    Clears source path
      ↔ takesPart source = true
        ∧ ∃ q ∈ path.inits, ∃ w ∈ source.bind (·.at? q), w.isObject = false := by
  constructor
  · rintro ⟨q, hq, -, w, hleaf, fields, rfl, hw⟩
    exact ⟨rfl, q, (List.mem_inits q path).mpr hq, w, hw, hleaf⟩
  · rintro ⟨hpart, q, hq, w, hw, hleaf⟩
    obtain ⟨fields, rfl⟩ := (takesPart_iff source).mp hpart
    have hholds : Holds (some (.object fields)) q w := (holds_object_iff fields q w).mpr hw
    exact ⟨q, (List.mem_inits q path).mp hq, ne_nil_of_holds hholds hleaf, w, hleaf, hholds⟩

instance (source : Option Value) (path : List String) : Decidable (Clears source path) :=
  decidable_of_iff _ clears_iff_inits.symm

/-- The sources behind the last one that clears the path; all of them if none does. -/
def sinceCleared (path : List String) (sources : List (Option Value)) : List (Option Value) :=
  sources.rtakeWhile fun source => ¬ Clears source path

theorem sinceCleared_concat_of_clears (h : Clears source path) (sources : List (Option Value)) :
    sinceCleared path (sources ++ [source]) = [] :=
  List.rtakeWhile_concat_neg _ _ _ (by simpa using h)

theorem sinceCleared_concat_of_not_clears (h : ¬ Clears source path)
    (sources : List (Option Value)) :
    sinceCleared path (sources ++ [source]) = sinceCleared path sources ++ [source] :=
  List.rtakeWhile_concat_pos _ _ _ (by simpa using h)

/-! ## The keys at a path -/

/-- Only an object leads to an object. -/
theorem holds_object_fields_iff {f : Fields} :
    Holds source path (.object f) ↔ source.bind (·.at? path) = some (.object f) := by
  constructor
  · rintro ⟨fields, rfl, hfields⟩
    exact hfields
  · intro h
    obtain ⟨v, rfl, hv⟩ := Option.bind_eq_some_iff.mp h
    have hobj : v.isObject = true := by
      cases path with
      | nil => exact v.isObject_iff.mpr ⟨f, Option.some.inj hv⟩
      | cons key path =>
        by_contra hleaf
        rw [Value.at?_cons_of_isObject_eq_false (Bool.not_eq_true _ ▸ hleaf)] at hv
        cases hv
    obtain ⟨fields, rfl⟩ := v.isObject_iff.mp hobj
    exact ⟨fields, rfl, hv⟩

theorem keysAt_of_holds {f : Fields} (h : Holds source path (.object f)) :
    keysAt path source = Fields.keys f := by
  rw [keysAt, holds_object_fields_iff.mp h]
  rfl

theorem keysAt_of_not_holds (h : ∀ f, ¬ Holds source path (.object f)) :
    keysAt path source = [] := by
  simp only [holds_object_fields_iff] at h
  rw [keysAt]
  rcases hat : source.bind (·.at? path) with _ | _ | _ | _ | _ | _ | f
  case some.object => exact absurd hat (h f)
  all_goals rfl

theorem nodup_keysAt (h : ∀ v ∈ source, v.DistinctKeys) (path : List String) :
    (keysAt path source).Nodup := by
  refine (distinctKeys_entriesOf fun w hw => ?_).nodup
  obtain ⟨v, hv, hw⟩ := Option.bind_eq_some_iff.mp hw
  exact (h v hv).at? hw

/-- A source that holds an object at a path clears nothing there. -/
theorem not_clears_of_holds {f : Fields} (h : Holds source path (.object f)) :
    ¬ Clears source path := by
  rw [clears_iff]
  rintro (⟨w, hleaf, hw⟩ | hblocks)
  · obtain rfl := h.unique hw
    cases hleaf
  · obtain ⟨fields, rfl, hfields⟩ := h
    rw [((blocks_object_iff fields path).mp hblocks).at?_eq_none] at hfields
    cases hfields

theorem keysAt_merge_eq (path : List String) (sources : List (Option Value)) :
    keysAt path (some (Strategy.deep.merge sources))
      = Fields.keys (entriesOf ((Value.object (soFar sources)).at? path)) := rfl

/-- One more source clears the path, or its keys there come behind those that are there already,
each once. -/
theorem keysAt_merge_concat {sources : List (Option Value)}
    (hsources : ∀ s ∈ sources, ∀ v ∈ s, v.DistinctKeys) (hsource : ∀ v ∈ source, v.DistinctKeys)
    (path : List String) :
    keysAt path (some (Strategy.deep.merge (sources ++ [source])))
      = if Clears source path then []
        else (keysAt path (some (Strategy.deep.merge sources)) ++ keysAt path source).eraseDups := by
  have hmerge : (Strategy.deep.merge sources).DistinctKeys :=
    hereditary_merge Value.hereditary_distinctKeys .deep hsources
  have hnodup : (keysAt path (some (Strategy.deep.merge sources))).Nodup :=
    nodup_keysAt (fun v hv => Option.some.inj hv ▸ hmerge) path
  rw [keysAt_merge_eq] at hnodup
  rw [keysAt_merge_eq, keysAt_merge_eq]
  rcases at?_concat_cases sources hsource path with
    ⟨w, hw, hnew⟩ | ⟨hnone, ⟨hblocks, hnew⟩ | ⟨hblocks, hnew⟩⟩
  · cases hobj : w.isObject with
    | false =>
      rw [if_pos (clears_iff.mpr (Or.inl ⟨w, hobj, hw⟩)), hnew,
        deepOver_of_isObject_eq_false _ hobj]
      cases w <;> first | rfl | cases hobj
    | true =>
      -- an object grows over what stood there, and over something else it begins anew
      obtain ⟨f, rfl⟩ := w.isObject_iff.mp hobj
      have hf : (Fields.keys f).Nodup := keysAt_of_holds hw ▸ nodup_keysAt hsource path
      rw [if_neg (not_clears_of_holds hw), hnew, deepOver_object hf, keysAt_of_holds hw,
        ← keys_deepFields hnodup]
      rfl
  · rw [if_pos (clears_iff.mpr (Or.inr hblocks)), hnew]
    rfl
  · -- the source says nothing about the path
    have hclears : ¬ Clears source path := by
      rw [clears_iff]
      rintro (⟨w, -, hw⟩ | h)
      · exact hnone w hw
      · exact hblocks h
    rw [if_neg hclears, hnew, keysAt_of_not_holds fun f => hnone (.object f), List.append_nil,
      eraseDups_of_nodup hnodup]

/-- What a merge holds at a path has the keys of all that the sources hold there since it was
cleared, in order of first appearance. -/
theorem keysAt_merge {sources : List (Option Value)}
    (hsources : ∀ s ∈ sources, ∀ v ∈ s, v.DistinctKeys) (path : List String) :
    keysAt path (some (Strategy.deep.merge sources))
      = ((sinceCleared path sources).flatMap (keysAt path)).eraseDups := by
  induction sources using List.reverseRecOn with
  | nil => cases path <;> rfl
  | append_singleton sources source ih =>
    obtain ⟨hbefore, hsource⟩ := List.forall_mem_append.mp hsources
    rw [keysAt_merge_concat hbefore (List.forall_mem_singleton.mp hsource)]
    split
    next hclears =>
      rw [sinceCleared_concat_of_clears hclears]
      rfl
    next hclears =>
      rw [ih hbefore, sinceCleared_concat_of_not_clears hclears, List.flatMap_append,
        List.flatMap_singleton, eraseDups_eraseDups_append]

/-- **The order of keys.** Where a deep merge holds an object, its keys are those of the objects
that the sources hold there, behind the last source that cleared the path if one did, each once
and in order of first appearance. One more source that does not clear the path leaves all keys in
their places, and those that it adds come behind them. -/
theorem deep_merge_keys {sources : List (Option Value)}
    (hsources : ∀ s ∈ sources, ∀ v ∈ s, v.DistinctKeys) {path : List String} {fields : Fields}
    (h : Holds (some (Strategy.deep.merge sources)) path (.object fields)) :
    Fields.keys fields = ((sinceCleared path sources).flatMap (keysAt path)).eraseDups
      ∧ ∀ source, (∀ v ∈ source, v.DistinctKeys) → ¬ Clears source path →
        ∃ grown, Holds (some (Strategy.deep.merge (sources ++ [source]))) path (.object grown)
          ∧ Fields.keys grown
            = Fields.keys fields ++ (keysAt path source).removeAll (Fields.keys fields) := by
  have hkeys := keysAt_of_holds h
  refine ⟨by rw [← hkeys, keysAt_merge hsources], ?_⟩
  intro source hsource hclears
  have hobject : ∃ grown, Holds (some (Strategy.deep.merge (sources ++ [source]))) path
      (.object grown) := by
    rw [clears_iff] at hclears
    simp only [deep_merge_eq, holds_object_iff] at h ⊢
    exact (holdsObject_concat_iff sources hsource).mpr (Or.inr ⟨hclears, fields, h⟩)
  obtain ⟨grown, hgrown⟩ := hobject
  have hfields : (Fields.keys fields).Nodup := by
    rw [← hkeys, keysAt_merge hsources]
    exact nodup_eraseDups _
  have hnew : ((keysAt path source).removeAll (Fields.keys fields)).Nodup :=
    (nodup_keysAt hsource path).sublist List.filter_sublist
  refine ⟨grown, hgrown, ?_⟩
  rw [← keysAt_of_holds hgrown, keysAt_merge_concat hsources hsource, if_neg hclears, hkeys,
    List.eraseDups_append, eraseDups_of_nodup hfields, eraseDups_of_nodup hnew]

/-- Sources of which the second clears what the first holds, and the others let it grow anew. -/
def clearedOnce : List (Option Value) :=
  [some (.object [("a", .object [("x", .null), ("y", .bool true)])]),
   some (.object [("a", .string "gone")]),
   none,
   some (.object [("b", .null), ("a", .object [("y", .array []), ("w", .object [])])]),
   some (.object [("a", .object [("x", .bool false), ("y", .null)])])]

/-- One more of them, which overrides a key and adds one. -/
def growing : Value := .object [("a", .object [("z", .null), ("w", .null)])]

/-- The first key of the first source comes last, since it was cleared in between. -/
theorem deep_merge_keys_cleared :
    (∀ s ∈ clearedOnce, ∀ v ∈ s, v.DistinctKeys)
      ∧ Holds (some (Strategy.deep.merge clearedOnce)) ["a"]
        (.object [("y", .null), ("w", .object []), ("x", .bool false)])
      ∧ ((sinceCleared ["a"] clearedOnce).flatMap (keysAt ["a"])).eraseDups = ["y", "w", "x"]
      ∧ growing.DistinctKeys ∧ ¬ Clears (some growing) ["a"]
      ∧ ∃ grown, Holds (some (Strategy.deep.merge (clearedOnce ++ [some growing]))) ["a"]
          (.object grown) ∧ Fields.keys grown = ["y", "w", "x", "z"] := by
  have hdistinct : ∀ s ∈ clearedOnce, ∀ v ∈ s, v.DistinctKeys := by decide
  have hholds : Holds (some (Strategy.deep.merge clearedOnce)) ["a"]
      (.object [("y", .null), ("w", .object []), ("x", .bool false)]) := ⟨_, rfl, rfl⟩
  have hgrowing : ∀ v ∈ some growing, v.DistinctKeys := by decide
  have hclears : ¬ Clears (some growing) ["a"] := by decide
  obtain ⟨hkeys, hmore⟩ := deep_merge_keys hdistinct hholds
  exact ⟨hdistinct, hholds, hkeys.symm, hgrowing _ rfl, hclears, hmore _ hgrowing hclears⟩

end Merge

end StageVars

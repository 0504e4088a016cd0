import StageVars.Proofs.Merge.Deep
import StageVars.Proofs.Merge.Keys
import StageVars.Proofs.Value.Extensional
/-!
# StageVars.Proofs.Merge.Layers -- many objects laid over one another

Objects that are laid over one another one after the other are seen key by key: at every
key the values that they hold there are laid over one another. A value that is no object
hides whatever is below it, so only what is above the last of these counts.

* `keys_layered`, `get?_layered`: a stack of objects by its keys.
* `overlaid_hidden`: what is no object hides what is below it.
* `layered_layered_self`: the same layers once more change nothing.
-/

namespace StageVars

namespace Merge

/-! ## One object over another -/

/-- New entries with distinct keys come behind the others as they are. -/
theorem deepFields_of_nodup {target source : Fields}
    (h : (Fields.keys (target ++ source)).Nodup) : deepFields target source = target ++ source := by
  induction source generalizing target with
  | nil => rw [deepFields_nil, List.append_nil]
  | cons entry rest ih =>
    have hnew := Fields.not_mem_keys_of_nodup h
    rw [deepFields_cons, (Fields.get?_eq_none_iff target entry.1).mpr hnew, deepOver_none,
      Fields.insert_of_not_mem hnew, ih (by rwa [List.append_assoc]), List.append_assoc,
      List.singleton_append]

/-- Over the empty object comes out what came in. -/
theorem deepFields_nil_left {source : Fields} (h : (Fields.keys source).Nodup) :
    deepFields [] source = source :=
  deepFields_of_nodup h

/-- The keys of two objects stand in order of first appearance. -/
theorem keys_deepFields {target : Fields} (h : (Fields.keys target).Nodup) (source : Fields) :
    Fields.keys (deepFields target source)
      = (Fields.keys target ++ Fields.keys source).eraseDups := by
  induction source generalizing target with
  | nil =>
    show _ = (Fields.keys target ++ []).eraseDups
    rw [deepFields_nil, List.append_nil, eraseDups_of_nodup h]
  | cons entry rest ih =>
    rw [deepFields_cons, ih (Fields.nodup_keys_insert h _ _),
      Fields.eraseDups_keys_insert_append]
    rfl

theorem nodup_keys_deepFields {target : Fields} (h : (Fields.keys target).Nodup)
    (source : Fields) : (Fields.keys (deepFields target source)).Nodup := by
  rw [keys_deepFields h]
  exact nodup_eraseDups _

/-! ## Values over one another -/

/-- Values laid over what stood there before, one after the other. -/
def overlaid (before : Option Value) (values : List Value) : Option Value :=
  values.foldl (fun b v => some (deepOver b v)) before

theorem overlaid_cons (before : Option Value) (v : Value) (values : List Value) :
    overlaid before (v :: values) = overlaid (some (deepOver before v)) values := rfl

/-- What is no object hides what is below it. -/
theorem overlaid_hidden {values : List Value} (h : ∃ v ∈ values, v.isObject = false)
    (before before' : Option Value) : overlaid before values = overlaid before' values := by
  induction values generalizing before before' with
  | nil =>
    obtain ⟨v, hv, -⟩ := h
    cases hv
  | cons v rest ih =>
    rw [overlaid_cons, overlaid_cons]
    cases hv : v.isObject with
    | false =>
      rw [deepOver_of_isObject_eq_false before hv, deepOver_of_isObject_eq_false before' hv]
    | true =>
      obtain ⟨w, hw, hobj⟩ := h
      rcases List.mem_cons.mp hw with rfl | hrest
      · rw [hv] at hobj
        cases hobj
      · exact ih ⟨w, hrest, hobj⟩ _ _

/-! ## Objects over one another -/

/-- Objects laid over `target`, one after the other. -/
def layered (target : Fields) (layers : List Fields) : Fields := layers.foldl deepFields target

theorem layered_cons (target layer : Fields) (layers : List Fields) :
    layered target (layer :: layers) = layered (deepFields target layer) layers := rfl

/-- The keys of many objects stand in order of first appearance. -/
theorem keys_layered {target : Fields} (h : (Fields.keys target).Nodup) (layers : List Fields) :
    Fields.keys (layered target layers)
      = (Fields.keys target ++ layers.flatMap Fields.keys).eraseDups := by
  induction layers generalizing target with
  | nil =>
    show _ = (Fields.keys target ++ []).eraseDups
    rw [List.append_nil, eraseDups_of_nodup h]
    rfl
  | cons layer layers ih =>
    rw [layered_cons, ih (nodup_keys_deepFields h layer), keys_deepFields h,
      eraseDups_eraseDups_append, List.append_assoc, List.flatMap_cons]

/-- The values that objects hold at a key. -/
def valuesAt (layers : List Fields) (key : String) : List Value :=
  layers.filterMap (Fields.get? · key)

/-- At every key the values that the objects hold there are laid over one another. -/
theorem get?_layered (target : Fields) {layers : List Fields}
    (h : ∀ layer ∈ layers, (Fields.keys layer).Nodup) (key : String) :
    Fields.get? (layered target layers) key
      = overlaid (Fields.get? target key) (valuesAt layers key) := by
  induction layers generalizing target with
  | nil => rfl
  | cons layer layers ih =>
    obtain ⟨hlayer, hlayers⟩ := List.forall_mem_cons.mp h
    rw [layered_cons, ih _ hlayers, get?_deepFields target hlayer, valuesAt, valuesAt,
      List.filterMap_cons]
    cases Fields.get? layer key <;> rfl

theorem distinctKeys_of_mem_valuesAt {layers : List Fields}
    (h : ∀ layer ∈ layers, (Value.object layer).DistinctKeys) {key : String} {v : Value}
    (hv : v ∈ valuesAt layers key) : v.DistinctKeys := by
  obtain ⟨layer, hlayer, hget⟩ := List.mem_filterMap.mp hv
  exact (h layer hlayer).get? hget

/-- Layers with distinct keys keep them distinct. -/
theorem distinctKeys_layered {target : Fields} {layers : List Fields}
    (htarget : (Value.object target).DistinctKeys)
    (hlayers : ∀ layer ∈ layers, (Value.object layer).DistinctKeys) :
    (Value.object (layered target layers)).DistinctKeys := by
  induction layers generalizing target with
  | nil => exact htarget
  | cons layer layers ih =>
    obtain ⟨hlayer, hrest⟩ := List.forall_mem_cons.mp hlayers
    have hfields := ((Value.distinctKeys_object_iff layer).mp hlayer).2
    refine ih ?_ hrest
    exact hereditary_deepFields Value.hereditary_distinctKeys target layer htarget hfields

/-- The entries of what stood there before; what is no object has none. -/
def entriesOf (before : Option Value) : Fields := before.elim [] Value.entries

theorem deepOver_object {incoming : Fields} (h : (Fields.keys incoming).Nodup)
    (before : Option Value) :
    deepOver before (.object incoming) = .object (deepFields (entriesOf before) incoming) := by
  rcases before with _ | _ | _ | _ | _ | _ | existing
  case some.object => rw [deepOver_object_object]; rfl
  all_goals
    show Value.object incoming = .object (deepFields [] incoming)
    rw [deepFields_nil_left h]

theorem overlaid_object (target : Fields) (layers : List Fields) :
    overlaid (some (.object target)) (layers.map .object)
      = some (.object (layered target layers)) := by
  induction layers generalizing target with
  | nil => rfl
  | cons layer layers ih =>
    rw [List.map_cons, overlaid_cons, deepOver_object_object, ih, layered_cons]

/-- Objects over anything grow together over its entries. -/
theorem overlaid_objects (before : Option Value) {layer : Fields} (h : (Fields.keys layer).Nodup)
    (layers : List Fields) :
    overlaid before ((layer :: layers).map .object)
      = some (.object (layered (entriesOf before) (layer :: layers))) := by
  rw [List.map_cons, overlaid_cons, deepOver_object h, overlaid_object, layered_cons]

/-! ## The same layers once more -/

/-- Layers that add no key and change no value change nothing. -/
theorem layered_eq_self {whole : Fields} {layers : List Fields}
    (hwhole : (Fields.keys whole).Nodup) (hlayers : ∀ layer ∈ layers, (Fields.keys layer).Nodup)
    (hkeys : layers.flatMap Fields.keys ⊆ Fields.keys whole)
    (hvalues : ∀ key v, Fields.get? whole key = some v →
      overlaid (some v) (valuesAt layers key) = some v) :
    layered whole layers = whole := by
  have hsame : Fields.keys (layered whole layers) = Fields.keys whole := by
    rw [keys_layered hwhole, eraseDups_append_of_subset hkeys, eraseDups_of_nodup hwhole]
  refine Fields.ext_get? (hsame ▸ hwhole) hsame fun key => ?_
  rw [get?_layered whole hlayers]
  cases hv : Fields.get? whole key with
  | some v => exact hvalues key v hv
  | none =>
    -- no layer has the key, since the whole has not
    have hnone : valuesAt layers key = [] := by
      refine List.filterMap_eq_nil_iff.mpr fun layer hlayer => ?_
      rw [Fields.get?_eq_none_iff] at hv ⊢
      exact fun hmem => hv (hkeys (List.mem_flatMap.mpr ⟨layer, hlayer, hmem⟩))
    rw [hnone]
    rfl

theorem keys_subset_layered {target : Fields} (h : (Fields.keys target).Nodup)
    (layers : List Fields) :
    layers.flatMap Fields.keys ⊆ Fields.keys (layered target layers) := by
  intro key hkey
  rw [keys_layered h, List.mem_eraseDups]
  exact List.mem_append_right _ hkey

/-- Laying the same layers over what they made changes nothing, if it changes nothing at any
key. -/
theorem layered_again {target : Fields} {layers : List Fields}
    (htarget : (Value.object target).DistinctKeys)
    (hlayers : ∀ layer ∈ layers, (Value.object layer).DistinctKeys)
    (hvalues : ∀ key v, overlaid (Fields.get? target key) (valuesAt layers key) = some v →
      overlaid (some v) (valuesAt layers key) = some v) :
    layered (layered target layers) layers = layered target layers := by
  have hnodup : ∀ layer ∈ layers, (Fields.keys layer).Nodup := fun l hl => (hlayers l hl).nodup
  refine layered_eq_self (distinctKeys_layered htarget hlayers).nodup hnodup
    (keys_subset_layered htarget.nodup layers) fun key v hv => ?_
  exact hvalues key v (by rw [← hv, get?_layered target hnodup])

theorem distinctKeys_entriesOf {before : Option Value} (h : ∀ v ∈ before, v.DistinctKeys) :
    (Value.object (entriesOf before)).DistinctKeys := by
  rcases before with _ | _ | _ | _ | _ | _ | existing
  case some.object => exact h _ rfl
  all_goals exact Value.distinctKeys_empty

/-- Either something among the values hides what is below, or all of them are objects. -/
theorem hidden_or_objects (values : List Value) :
    (∀ before before', overlaid before values = overlaid before' values)
      ∨ ∃ layers : List Fields, values = layers.map .object := by
  by_cases hobj : ∀ v ∈ values, v.isObject = true
  · refine Or.inr ⟨values.map Value.entries, ?_⟩
    rw [List.map_map]
    refine ((List.map_congr_left fun v hv => ?_).trans (List.map_id values)).symm
    obtain ⟨fields, rfl⟩ := v.isObject_iff.mp (hobj v hv)
    rfl
  · exact Or.inl (overlaid_hidden (by simpa using hobj))

/-- What values come to when they are laid over something is not changed by laying the same
values over it once more. -/
theorem overlaid_again {result : Value} {before : Option Value} {values : List Value}
    (hbefore : ∀ v ∈ before, v.DistinctKeys) (hvalues : ∀ v ∈ values, v.DistinctKeys)
    (h : overlaid before values = some result) : overlaid (some result) values = some result := by
  induction result using Value.byKeys generalizing before values with
  | leaf result hleaf =>
    rcases hidden_or_objects values with hhidden | ⟨layers, rfl⟩
    · rw [hhidden _ before, h]
    · cases layers with
      | nil => rfl
      | cons layer layers =>
        -- objects come to an object
        rw [overlaid_objects before (hvalues _ List.mem_cons_self).nodup, Option.some.injEq] at h
        rw [← h] at hleaf
        cases hleaf
  | object fields ih =>
    rcases hidden_or_objects values with hhidden | ⟨layers, rfl⟩
    · rw [hhidden _ before, h]
    · cases layers with
      | nil => rfl
      | cons layer layers =>
        have hlayers : ∀ l ∈ layer :: layers, (Value.object l).DistinctKeys := fun l hl =>
          hvalues _ (List.mem_map_of_mem hl)
        have hentries := distinctKeys_entriesOf hbefore
        rw [overlaid_objects before (hlayers _ List.mem_cons_self).nodup, Option.some.injEq,
          Value.object.injEq] at h
        subst h
        rw [overlaid_object, layered_again hentries hlayers]
        intro key v hv
        have hget := get?_layered (entriesOf before) (fun l hl => (hlayers l hl).nodup) key
        exact ih key v (hget.trans hv) (fun w hw => hentries.get? hw)
          (fun w hw => distinctKeys_of_mem_valuesAt hlayers hw) hv

/-- The same layers once more change nothing. -/
theorem layered_layered_self {target : Fields} {layers : List Fields}
    (htarget : (Value.object target).DistinctKeys)
    (hlayers : ∀ layer ∈ layers, (Value.object layer).DistinctKeys) :
    layered (layered target layers) layers = layered target layers := by
  refine layered_again htarget hlayers fun key v hv => ?_
  exact overlaid_again (fun w hw => htarget.get? hw)
    (fun w hw => distinctKeys_of_mem_valuesAt hlayers hw) hv

end Merge

end StageVars

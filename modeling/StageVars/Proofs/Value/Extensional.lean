import Mathlib.Data.List.Induction
import StageVars.Proofs.Value.FirstAppearance
import StageVars.Proofs.Value.Paths
/-!
# StageVars.Proofs.Value.Extensional -- objects by their keys and what these hold

An object that names each key once is known by its keys in order and by what it holds at
each of them. Both are known after any number of writes: a key stands where it came first
and holds what was written to it last.

* `ext_get?`: equal keys and equal values make equal objects.
* `keys_insertAll`, `get?_insertAll`: what a list of writes does.
* `insertAll_ofEntries`: writing entries, and writing the object that they describe.
* `Value.byKeys`: induction from the values at the keys to the object.
-/

namespace StageVars

namespace Fields

/-- Two objects with one list of keys and one value at every key are equal. -/
theorem ext_get? {xs ys : Fields} (hnodup : (keys xs).Nodup) (hkeys : keys xs = keys ys)
    (hget : ∀ key, get? xs key = get? ys key) : xs = ys := by
  induction xs generalizing ys with
  | nil => exact (List.map_eq_nil_iff.mp hkeys.symm).symm
  | cons x xs ih =>
    obtain ⟨k, v⟩ := x
    cases ys with
    | nil => cases hkeys
    | cons y ys =>
      obtain ⟨l, w⟩ := y
      rw [keys_cons, keys_cons, List.cons.injEq] at hkeys
      obtain ⟨rfl, hrest⟩ := hkeys
      rw [keys_cons, List.nodup_cons] at hnodup
      have hvalue : v = w := by simpa [get?] using hget k
      subst hvalue
      refine congrArg _ (ih hnodup.2 hrest fun key => ?_)
      by_cases hk : k = key
      · -- the first key comes again in neither of them
        subst hk
        rw [(get?_eq_none_iff xs k).mpr hnodup.1, (get?_eq_none_iff ys k).mpr (hrest ▸ hnodup.1)]
      · simpa [get?, hk] using hget key

/-! ## Writes -/

/-- To write what a key holds already changes nothing. -/
theorem insert_of_get? {fields : Fields} {key : String} {value : Value}
    (h : get? fields key = some value) : insert fields key value = fields := by
  induction fields with
  | nil => cases h
  | cons entry rest ih =>
    obtain ⟨k, v⟩ := entry
    by_cases hk : k = key
    · subst hk
      have hv : v = value := by simpa [get?] using h
      simp [insert, hv]
    · rw [get?, if_neg hk] at h
      simp [insert, hk, ih h]

/-- Writes to two keys can be done in either order if one of the keys is there. -/
theorem insert_comm {fields : Fields} {key other : String} (hkey : key ∈ keys fields)
    (hne : other ≠ key) (v w : Value) :
    insert (insert fields key v) other w = insert (insert fields other w) key v := by
  induction fields with
  | nil => cases hkey
  | cons entry rest ih =>
    obtain ⟨k, u⟩ := entry
    by_cases hk : k = key
    · subst hk
      simp [insert, Ne.symm hne]
    · have hrest : key ∈ keys rest := (List.mem_cons.mp hkey).resolve_left (Ne.symm hk)
      by_cases ho : k = other
      · subst ho
        simp [insert, hne]
      · simp [insert, hk, ho, ih hrest]

/-- A new key comes last. -/
theorem insert_of_not_mem {fields : Fields} {key : String} (h : key ∉ keys fields)
    (value : Value) : insert fields key value = fields ++ [(key, value)] := by
  induction fields with
  | nil => rfl
  | cons entry rest ih =>
    rw [keys_cons, List.mem_cons, not_or] at h
    rw [insert, if_neg (Ne.symm h.1), ih h.2, List.cons_append]

theorem not_mem_keys_of_nodup {fields rest : Fields} {entry : String × Value}
    (h : (keys (fields ++ entry :: rest)).Nodup) : entry.1 ∉ keys fields := by
  rw [keys, List.map_append, List.map_cons, List.nodup_append] at h
  intro hmem
  exact h.2.2 _ hmem _ List.mem_cons_self rfl

/-- In order of first appearance, a key that is written comes before those that are written
after it. -/
theorem eraseDups_keys_insert_append (fields : Fields) (key : String) (value : Value)
    (later : List String) :
    (keys (insert fields key value) ++ later).eraseDups
      = (keys fields ++ key :: later).eraseDups := by
  rw [keys_insert]
  by_cases hkey : key ∈ keys fields
  · have hkeys : (keys fields ++ [key]).eraseDups = (keys fields).eraseDups :=
      eraseDups_append_of_subset (by simpa using hkey)
    rw [if_pos hkey, List.append_cons, ← eraseDups_eraseDups_append, ← hkeys,
      eraseDups_eraseDups_append]
  · rw [if_neg hkey, List.append_assoc, List.singleton_append]

/-- After many writes the keys stand in order of first appearance. -/
theorem keys_insertAll {fields : Fields} (h : (keys fields).Nodup) (entries : Fields) :
    keys (insertAll fields entries) = (keys fields ++ keys entries).eraseDups := by
  induction entries generalizing fields with
  | nil =>
    show keys fields = (keys fields ++ []).eraseDups
    rw [List.append_nil, eraseDups_of_nodup h]
  | cons entry rest ih =>
    show keys (insertAll (insert fields entry.1 entry.2) rest) = _
    rw [ih (nodup_keys_insert h entry.1 entry.2), eraseDups_keys_insert_append]
    rfl

theorem insertAll_append (fields entries more : Fields) :
    insertAll fields (entries ++ more) = insertAll (insertAll fields entries) more :=
  List.foldl_append

theorem get?_append (xs ys : Fields) (key : String) :
    get? (xs ++ ys) key = (get? xs key).or (get? ys key) := by
  induction xs with
  | nil => rfl
  | cons entry rest ih =>
    obtain ⟨k, v⟩ := entry
    rw [List.cons_append, get?, get?]
    by_cases hk : k = key
    · rw [if_pos hk, if_pos hk, Option.some_or]
    · rw [if_neg hk, if_neg hk, ih]

/-- After many writes a key holds what was written to it last, if anything was. -/
theorem get?_insertAll (fields entries : Fields) (key : String) :
    get? (insertAll fields entries) key = (get? entries.reverse key).or (get? fields key) := by
  induction entries using List.reverseRecOn with
  | nil => rfl
  | append_singleton entries last ih =>
    obtain ⟨k, v⟩ := last
    rw [insertAll_append, List.reverse_append]
    show get? (insert (insertAll fields entries) k v) key
      = (if k = key then some v else get? entries.reverse key).or _
    by_cases hk : k = key
    · subst hk
      rw [get?_insert_self, if_pos rfl, Option.some_or]
    · rw [get?_insert_of_ne _ _ (Ne.symm hk), if_neg hk, ih]

/-- To write the same entries once more changes nothing. -/
theorem insertAll_insertAll_self {fields : Fields} (h : (keys fields).Nodup) (entries : Fields) :
    insertAll (insertAll fields entries) entries = insertAll fields entries := by
  rw [← insertAll_append]
  have hkeys := keys_insertAll h (entries ++ entries)
  refine ext_get? ?_ ?_ fun key => ?_
  · rw [hkeys]
    exact nodup_eraseDups _
  · rw [hkeys, keys_insertAll h]
    show (_ ++ List.map _ (entries ++ entries)).eraseDups = _
    rw [List.map_append, ← List.append_assoc]
    exact eraseDups_append_of_subset (List.subset_append_right _ _)
  · rw [get?_insertAll, get?_insertAll, List.reverse_append, get?_append]
    cases get? entries.reverse key <;> rfl

/-- New entries with distinct keys come behind the others as they are. -/
theorem insertAll_of_nodup {fields entries : Fields} (h : (keys (fields ++ entries)).Nodup) :
    insertAll fields entries = fields ++ entries := by
  induction entries generalizing fields with
  | nil => exact (List.append_nil fields).symm
  | cons entry rest ih =>
    show insertAll (insert fields entry.1 entry.2) rest = _
    rw [insert_of_not_mem (not_mem_keys_of_nodup h), ih (by rwa [List.append_assoc]),
      List.append_assoc, List.singleton_append]

/-- Where every key has one entry, it makes no difference from which end one looks for it. -/
theorem get?_reverse {fields : Fields} (h : (keys fields).Nodup) (key : String) :
    get? fields.reverse key = get? fields key := by
  induction fields with
  | nil => rfl
  | cons entry rest ih =>
    obtain ⟨k, v⟩ := entry
    rw [keys_cons, List.nodup_cons] at h
    rw [List.reverse_cons, get?_append, ih h.2]
    by_cases hk : k = key
    · subst hk
      rw [(get?_eq_none_iff rest k).mpr h.1]
      simp [get?]
    · simp [get?, hk]

/-- The object that entries describe has its keys in order of first appearance. -/
theorem keys_ofEntries (entries : Fields) : keys (ofEntries entries) = (keys entries).eraseDups :=
  keys_insertAll Value.distinctKeys_empty.nodup entries

/-- At each key it holds what comes last. -/
theorem get?_ofEntries (entries : Fields) (key : String) :
    get? (ofEntries entries) key = get? entries.reverse key := by
  rw [ofEntries, get?_insertAll, get?_nil, Option.or_none]

/-- To write entries is to write the object that they describe. -/
theorem insertAll_ofEntries {fields : Fields} (h : (keys fields).Nodup) (entries : Fields) :
    insertAll fields (ofEntries entries) = insertAll fields entries := by
  have hentries : (keys (ofEntries entries)).Nodup := keys_ofEntries entries ▸ nodup_eraseDups _
  have hall := keys_insertAll h (ofEntries entries)
  refine ext_get? (hall ▸ nodup_eraseDups _) ?_ fun key => ?_
  · rw [hall, keys_ofEntries, eraseDups_append_eraseDups, keys_insertAll h]
  · rw [get?_insertAll, get?_insertAll, get?_reverse hentries, get?_ofEntries]

end Fields

namespace Value

theorem sizeOf_lt_of_get? {fields : Fields} {key : String} {v : Value}
    (h : Fields.get? fields key = some v) : sizeOf v < sizeOf (object fields) := by
  have hmem := List.sizeOf_lt_of_mem (Fields.mem_of_get? h)
  simp only [Prod.mk.sizeOf_spec, object.sizeOf_spec] at hmem ⊢
  omega

/-- What holds of every value that is no object, and of an object once it holds of what its
keys hold, holds of every value. -/
@[elab_as_elim]
theorem byKeys {motive : Value → Prop} (leaf : ∀ v, v.isObject = false → motive v)
    (object : ∀ fields, (∀ key v, Fields.get? fields key = some v → motive v) →
      motive (.object fields)) (v : Value) : motive v :=
  match v with
  | .object fields => object fields fun _ v _ => byKeys leaf object v
  | .null | .bool _ | .number _ | .string _ | .array _ => leaf _ rfl
termination_by sizeOf v
decreasing_by exact sizeOf_lt_of_get? ‹_›

end Value

end StageVars

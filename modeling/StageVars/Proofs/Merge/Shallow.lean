import StageVars.Proofs.Merge.Paths
import StageVars.Proofs.Merge.Replay
/-!
# StageVars.Proofs.Merge.Shallow -- what a shallow merge makes of its sources

A shallow merge writes down what its sources offer, one entry after the other: an object its
entries, an array its items under their positions. Every key that is offered has the place where
it was offered first and holds the value that was offered last.

* `keys_offered_array`, `get?_offered_array`: an array by its positions.
* `get?_reverse_eq_some_iff`: the last entry for a key.
* `shallow_merge_offered`: the whole list of sources.
-/

namespace StageVars

namespace Merge

/-! ## What a source offers -/

/-- What a source offers: an object its entries, an array its items, each under its position in
decimal digits, and anything else nothing. -/
def offered : Option Value → Fields
  | some (.object fields) => fields
  | some (.array items) => ((List.range items.length).map Nat.repr).zip items
  | none | some .null | some (.bool _) | some (.number _) | some (.string _) => []

theorem repr_injective : Function.Injective Nat.repr := by
  have hread : Function.LeftInverse (Nat.ofDigitChars 10 ·.toList 0) Nat.repr := by
    intro n
    show Nat.ofDigitChars 10 n.repr.toList 0 = n
    rw [Nat.toList_repr, Nat.ofDigitChars_ten_toDigits]
  exact hread.injective

/-- The keys of an array are its positions in order. -/
theorem keys_offered_array (items : List Value) :
    Fields.keys (offered (some (.array items))) = (List.range items.length).map Nat.repr :=
  List.map_fst_zip (by rw [List.length_map, List.length_range])

theorem nodup_keys_offered_array (items : List Value) :
    (Fields.keys (offered (some (.array items)))).Nodup := by
  rw [keys_offered_array]
  exact List.nodup_range.map repr_injective

/-- Every item of an array is found under its position. -/
theorem get?_offered_array (items : List Value) (i : Nat) :
    Fields.get? (offered (some (.array items))) (Nat.repr i) = items[i]? := by
  -- positions that are counted from `start`, since the rest of an array does not begin at zero
  suffices h : ∀ start i, Fields.get? (((List.range' start items.length).map Nat.repr).zip items)
      (Nat.repr (start + i)) = items[i]? by
    have hzero := h 0 i
    rwa [← List.range_eq_range', Nat.zero_add] at hzero
  clear i
  induction items with
  | nil => intro start i; rfl
  | cons item items ih =>
    intro start i
    rw [List.length_cons, List.range'_succ, List.map_cons, List.zip_cons_cons, Fields.get?]
    cases i with
    | zero => rw [Nat.add_zero, if_pos rfl, List.getElem?_cons_zero]
    | succ i =>
      have hother : Nat.repr start ≠ Nat.repr (start + (i + 1)) :=
        fun h => absurd (repr_injective h) (by omega)
      have hplace : start + (i + 1) = start + 1 + i := by omega
      rw [if_neg hother, List.getElem?_cons_succ, hplace, ih]

theorem byIndex_eq (items : List Value) : byIndex items = offered (some (.array items)) := by
  refine List.ext_getElem (by simp [byIndex, offered]) fun i _ _ => ?_
  simp [byIndex, offered]

/-- What a source contributes to a shallow merge is what it offers. -/
theorem contribution_shallow : Strategy.shallow.contribution = offered := by
  funext source
  rcases source with _ | _ | _ | _ | _ | items | _
  case some.array => exact byIndex_eq items
  all_goals rfl

/-! ## The last entry for a key -/

/-- Looked for from the end, a key is found with the value of its last entry. -/
theorem get?_reverse_eq_some_iff (entries : Fields) (key : String) (v : Value) :
    Fields.get? entries.reverse key = some v
      ↔ Standing (· = (key, v)) (·.1 = key) entries := by
  induction entries using List.reverseRecOn with
  | nil => exact iff_of_false nofun not_standing_nil
  | append_singleton entries entry ih =>
    obtain ⟨k, w⟩ := entry
    rw [List.reverse_append, List.reverse_singleton, List.singleton_append, standing_concat, ← ih,
      Fields.get?]
    by_cases hk : k = key
    · simp [hk]
    · simp [hk]

/-! ## All sources -/

/-- **The meaning of a shallow merge.** Its keys are all that the sources offer, each once and in
the order in which they are offered first, and at each key it holds the value that is offered
last, whatever was offered before. With nothing offered it is the empty object. An array offers
each of its items once, under its position. -/
theorem shallow_merge_offered (sources : List (Option Value)) :
    (∃ fields, Strategy.shallow.merge sources = .object fields
      ∧ Fields.keys fields = (Fields.keys (sources.flatMap offered)).eraseDups
      ∧ (∀ key v, Fields.get? fields key = some v
        ↔ Standing (· = (key, v)) (·.1 = key) (sources.flatMap offered))
      ∧ (sources.flatMap offered = [] → fields = []))
    ∧ ∀ items, (Fields.keys (offered (some (.array items)))).Nodup
      ∧ ∀ i, Fields.get? (offered (some (.array items))) (Nat.repr i) = items[i]? := by
  have hmerge : Strategy.shallow.merge sources
      = .object (Fields.ofEntries (sources.flatMap offered)) := by
    rw [Strategy.merge, foldl_step_shallow, contribution_shallow]
    rfl
  refine ⟨⟨_, hmerge, ?_, fun key v => ?_, fun hnothing => ?_⟩, fun items => ?_⟩
  · exact Fields.keys_ofEntries _
  · rw [Fields.get?_ofEntries, get?_reverse_eq_some_iff]
  · rw [hnothing]
    rfl
  · exact ⟨nodup_keys_offered_array items, get?_offered_array items⟩

/-- An item takes the value of a key that reads like its position, and leaves it in its place. -/
example :
    Strategy.shallow.merge [some (.object [("1", .null), ("a", .object [("x", .null)])]),
        some (.array [.bool true, .bool false]), some (.object [("a", .object [])])]
      = .object [("1", .bool false), ("a", .object []), ("0", .bool true)] := by
  decide

end Merge

end StageVars

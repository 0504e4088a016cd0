import Mathlib.Data.List.Induction
import StageVars.Proofs.Merge.Deep
import StageVars.Proofs.Merge.Keys
/-!
# StageVars.Proofs.Merge.Paths -- which source decides at a path

A deep merge of many sources, seen from one path: the last source that says anything
about the path decides what stands there. A source says something by holding a value at
the path, or by holding something other than an object on the way.

* `standing_concat`: the law of "some member, and no later one" when a member is added.
* `holds_concat_iff`, `holdsObject_concat_iff`: what one more source changes.
* `deep_merge_holds_iff`: the whole list of sources.
-/

namespace StageVars

namespace Merge

/-! ## The last member that matters -/

/-- Some member has `P`, and no later member has `Q`. -/
def Standing {α : Type} (P Q : α → Prop) (xs : List α) : Prop :=
  ∃ (i : Nat) (x : α), xs[i]? = some x ∧ P x ∧
    ∀ (j : Nat) (y : α), i < j → xs[j]? = some y → ¬ Q y

section Standing

variable {α : Type} {P Q : α → Prop}

theorem not_standing_nil : ¬ Standing P Q [] := by
  rintro ⟨i, x, hx, -⟩
  cases hx

/-- One more member stands itself, or leaves standing what stood before. -/
theorem standing_concat (xs : List α) (x : α) :
    Standing P Q (xs ++ [x]) ↔ P x ∨ ¬ Q x ∧ Standing P Q xs := by
  constructor
  · rintro ⟨i, y, hy, hP, hQ⟩
    have hlast : (xs ++ [x])[xs.length]? = some x := List.getElem?_concat_length
    by_cases hi : i < xs.length
    · refine Or.inr ⟨hQ _ _ hi hlast, i, y, ?_, hP, ?_⟩
      · rwa [List.getElem?_append_left hi] at hy
      · intro j z hij hz
        have hj : j < xs.length := (List.getElem?_eq_some_iff.mp hz).1
        exact hQ j z hij (by rwa [List.getElem?_append_left hj])
    · have hlen := (List.getElem?_eq_some_iff.mp hy).1
      rw [List.length_append, List.length_singleton] at hlen
      obtain rfl : i = xs.length := by omega
      obtain rfl : x = y := Option.some.inj (hlast.symm.trans hy)
      exact Or.inl hP
  · rintro (hP | ⟨hQ, i, y, hy, hP, hlater⟩)
    · refine ⟨xs.length, x, List.getElem?_concat_length, hP, ?_⟩
      intro j z hj hz
      have hlen := (List.getElem?_eq_some_iff.mp hz).1
      rw [List.length_append, List.length_singleton] at hlen
      omega
    · have hi : i < xs.length := (List.getElem?_eq_some_iff.mp hy).1
      refine ⟨i, y, by rwa [List.getElem?_append_left hi], hP, ?_⟩
      intro j z hij hz
      by_cases hj : j < xs.length
      · exact hlater j z hij (by rwa [List.getElem?_append_left hj] at hz)
      · have hlen := (List.getElem?_eq_some_iff.mp hz).1
        rw [List.length_append, List.length_singleton] at hlen
        obtain rfl : j = xs.length := by omega
        rw [List.getElem?_concat_length] at hz
        exact Option.some.inj hz ▸ hQ

end Standing

/-! ## What a source says about a path -/

/-- The source is an object, and a walk from it along the path leads to the value. -/
def Holds (source : Option Value) (path : List String) (v : Value) : Prop :=
  ∃ fields, source = some (.object fields) ∧ (Value.object fields).at? path = some v

/-- The source holds something other than an object at a part of the path, neither at
its beginning nor at its end. -/
def Blocks (source : Option Value) (path : List String) : Prop :=
  ∃ q r, path = q ++ r ∧ q ≠ [] ∧ r ≠ [] ∧ ∃ w, w.isObject = false ∧ Holds source q w

/-- Only an object takes part in a deep merge. -/
def takesPart (source : Option Value) : Bool := source.any Value.isObject

@[simp] theorem holds_object_iff (fields : Fields) (path : List String) (v : Value) :
    Holds (some (.object fields)) path v ↔ (Value.object fields).at? path = some v := by
  simp [Holds]

/-- A source holds one value at a path. -/
theorem Holds.unique {source : Option Value} {path : List String} {v w : Value}
    (hv : Holds source path v) (hw : Holds source path w) : v = w := by
  obtain ⟨fields, rfl, hv⟩ := hv
  rw [holds_object_iff, hv] at hw
  exact Option.some.inj hw

theorem blocks_object_iff (fields : Fields) (path : List String) :
    Blocks (some (.object fields)) path ↔ (Value.object fields).Bars path := by
  constructor
  · rintro ⟨q, r, hpath, -, hr, w, hobj, hw⟩
    exact ⟨q, r, hpath, hr, w, (holds_object_iff fields q w).mp hw, hobj⟩
  · rintro ⟨q, r, hpath, hr, w, hw, hobj⟩
    refine ⟨q, r, hpath, ?_, hr, w, hobj, (holds_object_iff fields q w).mpr hw⟩
    -- an object itself stands at the beginning
    rintro rfl
    obtain rfl : Value.object fields = w := Option.some.inj hw
    cases hobj

theorem takesPart_iff (source : Option Value) :
    takesPart source = true ↔ ∃ fields, source = some (.object fields) := by
  cases source with
  | none => simp [takesPart]
  | some v => simpa [takesPart] using v.isObject_iff

theorem takesPart_eq_heeds : takesPart = Strategy.deep.heeds := by
  funext source
  rcases source with _ | _ | _ | _ | _ | _ | _ <;> rfl

/-- A source that takes no part holds nothing. -/
theorem not_holds_of_takesPart {source : Option Value} (h : takesPart source = false)
    (path : List String) (v : Value) : ¬ Holds source path v := by
  rintro ⟨fields, rfl, -⟩
  cases h

theorem not_blocks_of_takesPart {source : Option Value} (h : takesPart source = false)
    (path : List String) : ¬ Blocks source path := by
  rintro ⟨q, -, -, -, -, w, -, hw⟩
  exact not_holds_of_takesPart h q w hw

/-! ## One more source -/

/-- The object that a deep merge of sources has come to. -/
def soFar (sources : List (Option Value)) : Fields := sources.foldl (Strategy.step .deep) []

theorem deep_merge_eq (sources : List (Option Value)) :
    Strategy.deep.merge sources = .object (soFar sources) := rfl

theorem soFar_concat (sources : List (Option Value)) (source : Option Value) :
    soFar (sources ++ [source]) = Strategy.step .deep (soFar sources) source :=
  List.foldl_append

theorem soFar_concat_of_takesPart {source : Option Value} (h : takesPart source = false)
    (sources : List (Option Value)) : soFar (sources ++ [source]) = soFar sources := by
  rw [soFar_concat, step_of_not_heeds (takesPart_eq_heeds ▸ h)]

theorem soFar_concat_object (sources : List (Option Value)) (fields : Fields) :
    Value.object (soFar (sources ++ [some (.object fields)]))
      = deepOver (some (.object (soFar sources))) (.object fields) := by
  rw [deepOver_object_object, soFar_concat]
  rfl

variable {source : Option Value} {path : List String}

/-- All that one more source can do at a path: lay what it holds there over what stood
there, bar the way, or leave everything as it was. -/
theorem at?_concat_cases (sources : List (Option Value))
    (hsource : ∀ v ∈ source, v.DistinctKeys) (path : List String) :
    (∃ w, Holds source path w
        ∧ (Value.object (soFar (sources ++ [source]))).at? path
          = some (deepOver ((Value.object (soFar sources)).at? path) w))
      ∨ (∀ w, ¬ Holds source path w)
        ∧ (Blocks source path ∧ (Value.object (soFar (sources ++ [source]))).at? path = none
          ∨ ¬ Blocks source path ∧ (Value.object (soFar (sources ++ [source]))).at? path
            = (Value.object (soFar sources)).at? path) := by
  cases hpart : takesPart source with
  | false =>
    rw [soFar_concat_of_takesPart hpart]
    exact Or.inr ⟨not_holds_of_takesPart hpart path,
      Or.inr ⟨not_blocks_of_takesPart hpart path, rfl⟩⟩
  | true =>
    obtain ⟨fields, rfl⟩ := (takesPart_iff source).mp hpart
    have hdistinct := hsource _ rfl
    simp only [soFar_concat_object, holds_object_iff, blocks_object_iff]
    cases hw : (Value.object fields).at? path with
    | some w => exact Or.inl ⟨w, rfl, at?_deepOver_of_some _ hdistinct hw⟩
    | none =>
      refine Or.inr ⟨by simp, ?_⟩
      by_cases hbars : (Value.object fields).Bars path
      · exact Or.inl ⟨hbars, at?_deepOver_of_bars _ hdistinct hbars⟩
      · exact Or.inr ⟨hbars, at?_deepOver_of_none _ hdistinct hw hbars⟩

/-- A value that is no object stands in the result because the last source holds it, or
because the last source says nothing and it stood there before. -/
theorem holds_concat_iff (sources : List (Option Value))
    (hsource : ∀ v ∈ source, v.DistinctKeys) {v : Value} (hv : v.isObject = false) :
    (Value.object (soFar (sources ++ [source]))).at? path = some v
      ↔ Holds source path v
        ∨ ¬ ((∃ w, Holds source path w) ∨ Blocks source path)
          ∧ (Value.object (soFar sources)).at? path = some v := by
  rcases at?_concat_cases sources hsource path with
    ⟨w, hw, hnew⟩ | ⟨hnone, ⟨hblocks, hnew⟩ | ⟨hblocks, hnew⟩⟩
  · -- the last source holds `w`, which decides alone
    have hheld : Holds source path v ↔ w = v := ⟨hw.unique, fun h => h ▸ hw⟩
    have hsays : ∃ w, Holds source path w := ⟨w, hw⟩
    simp [hnew, hheld, hsays, deepOver_eq_iff hv]
  · simp [hnew, hnone, hblocks]
  · simp [hnew, hnone, hblocks]

/-- An object stands in the result because the last source holds one, or because the last
source puts nothing else in its place and one stood there before. -/
theorem holdsObject_concat_iff (sources : List (Option Value))
    (hsource : ∀ v ∈ source, v.DistinctKeys) :
    (∃ f, (Value.object (soFar (sources ++ [source]))).at? path = some (.object f))
      ↔ (∃ f, Holds source path (.object f))
        ∨ ¬ ((∃ w, w.isObject = false ∧ Holds source path w) ∨ Blocks source path)
          ∧ ∃ f, (Value.object (soFar sources)).at? path = some (.object f) := by
  rcases at?_concat_cases sources hsource path with
    ⟨w, hw, hnew⟩ | ⟨hnone, ⟨hblocks, hnew⟩ | ⟨hblocks, hnew⟩⟩
  · have hout : (∃ f, some (deepOver ((Value.object (soFar sources)).at? path) w)
        = some (.object f)) ↔ w.isObject = true := by
      simp only [Option.some.injEq]
      rw [← Value.isObject_iff, isObject_deepOver]
    rw [hnew, hout]
    cases hobj : w.isObject with
    | true =>
      obtain ⟨f, rfl⟩ := w.isObject_iff.mp hobj
      exact iff_of_true rfl (Or.inl ⟨f, hw⟩)
    | false =>
      refine iff_of_false Bool.false_ne_true ?_
      rintro (⟨f, hf⟩ | ⟨hsilent, -⟩)
      · obtain rfl := hw.unique hf
        cases hobj
      · exact hsilent (Or.inl ⟨w, hobj, hw⟩)
  · simp [hnew, hnone, hblocks]
  · simp [hnew, hnone, hblocks]

/-! ## All sources -/

variable {sources : List (Option Value)}

theorem at?_soFar_nil (hpath : path ≠ []) : (Value.object (soFar [])).at? path = none := by
  cases path with
  | nil => exact absurd rfl hpath
  | cons key path => rfl

theorem soFar_holds_iff (hsources : ∀ s ∈ sources, ∀ v ∈ s, v.DistinctKeys) (hpath : path ≠ [])
    {v : Value} (hv : v.isObject = false) :
    (Value.object (soFar sources)).at? path = some v
      ↔ Standing (Holds · path v) (fun s => (∃ w, Holds s path w) ∨ Blocks s path) sources := by
  induction sources using List.reverseRecOn with
  | nil =>
    rw [at?_soFar_nil hpath]
    exact iff_of_false (by simp) not_standing_nil
  | append_singleton xs x ih =>
    obtain ⟨hxs, hx⟩ := List.forall_mem_append.mp hsources
    rw [holds_concat_iff xs (List.forall_mem_singleton.mp hx) hv, standing_concat, ih hxs]

theorem soFar_holdsObject_iff (hsources : ∀ s ∈ sources, ∀ v ∈ s, v.DistinctKeys)
    (hpath : path ≠ []) :
    (∃ f, (Value.object (soFar sources)).at? path = some (.object f))
      ↔ Standing (fun s => ∃ f, Holds s path (.object f))
        (fun s => (∃ w, w.isObject = false ∧ Holds s path w) ∨ Blocks s path) sources := by
  induction sources using List.reverseRecOn with
  | nil =>
    rw [at?_soFar_nil hpath]
    exact iff_of_false (by simp) not_standing_nil
  | append_singleton xs x ih =>
    obtain ⟨hxs, hx⟩ := List.forall_mem_append.mp hsources
    rw [holdsObject_concat_iff xs (List.forall_mem_singleton.mp hx), standing_concat, ih hxs]

theorem soFar_filter_takesPart (sources : List (Option Value)) :
    soFar (sources.filter takesPart) = soFar sources := by
  rw [takesPart_eq_heeds]
  exact foldl_step_filter_heeds .deep [] sources

/-- **The meaning of a deep merge.** A value that is no object stands at a path of the
result exactly when some source holds it there and no later source holds anything there or
blocks the way. An object stands there exactly when some source holds an object there and
no later source holds anything else there or blocks the way. Sources that are no objects
make no difference. Objects name each key once, as all do that are read or merged. -/
theorem deep_merge_holds_iff (hsources : ∀ s ∈ sources, ∀ v ∈ s, v.DistinctKeys)
    (hpath : path ≠ []) :
    (∀ v, v.isObject = false →
      (Holds (some (Strategy.deep.merge sources)) path v
        ↔ Standing (Holds · path v) (fun s => (∃ w, Holds s path w) ∨ Blocks s path) sources))
    ∧ ((∃ f, Holds (some (Strategy.deep.merge sources)) path (.object f))
        ↔ Standing (fun s => ∃ f, Holds s path (.object f))
          (fun s => (∃ w, w.isObject = false ∧ Holds s path w) ∨ Blocks s path) sources)
    ∧ Strategy.deep.merge (sources.filter takesPart) = Strategy.deep.merge sources := by
  simp only [deep_merge_eq, holds_object_iff]
  refine ⟨?_, ?_, ?_⟩
  · intro v hv
    exact soFar_holds_iff hsources hpath hv
  · exact soFar_holdsObject_iff hsources hpath
  · rw [soFar_filter_takesPart]

/-- Sources in which an object is replaced and then grows anew. -/
def regrown : List (Option Value) :=
  [some (.object [("a", .object [("x", .number (.integer 1)), ("y", .array [.null])])]),
   none,
   some (.object [("a", .null)]),
   some (.array [.bool true]),
   some (.object [("b", .string ""), ("a", .object [("y", .array [])])])]

/-- The array that grew last stands alone, in an object again. -/
theorem deep_merge_holds_regrown :
    (∀ s ∈ regrown, ∀ v ∈ s, v.DistinctKeys) ∧ ["a", "y"] ≠ []
    ∧ Holds (some (Strategy.deep.merge regrown)) ["a", "y"] (.array [])
    ∧ ∃ f, Holds (some (Strategy.deep.merge regrown)) ["a"] (.object f) := by
  have hdistinct : ∀ s ∈ regrown, ∀ v ∈ s, v.DistinctKeys := by decide
  have hlast (j : Nat) (s : Option Value) (hj : 4 < j) (hs : regrown[j]? = some s) : False := by
    have hlen := (List.getElem?_eq_some_iff.mp hs).1
    simp only [regrown, List.length_cons, List.length_nil] at hlen
    omega
  refine ⟨hdistinct, by simp, ?_, ?_⟩
  · exact ((deep_merge_holds_iff hdistinct (by simp)).1 _ rfl).mpr
      ⟨4, _, rfl, ⟨_, rfl, rfl⟩, fun j s hj hs => (hlast j s hj hs).elim⟩
  · exact (deep_merge_holds_iff hdistinct (by simp)).2.1.mpr
      ⟨4, _, rfl, ⟨_, _, rfl, rfl⟩, fun j s hj hs => (hlast j s hj hs).elim⟩

end Merge

end StageVars

import StageVars.Proofs.Merge.Regrouping
/-!
# StageVars.Proofs.Merge.Returning -- what comes back when a merge is regrouped

Where the first and the third of three objects hold objects and the second holds something else,
the two ways of merging them part: if the first two are merged first, what the first holds there
is gone before the third comes; if the last two are, it is still there. These are the only places
where they part, so that regrouping is safe exactly if at all of them the third hides the first.

* `Returns`: such a place.
* `Returns.at?_left`, `Returns.at?_right`: what the two groupings hold there.
* `deep_regroup_iff`: when they are equal.
-/

namespace StageVars

namespace Merge

/-- At the end of a path `a` holds the object `x` and `c` the object `z`, and `b` holds something
that is no object. -/
structure Returns (a b c : Value) (path : List String) (x z : Fields) : Prop where
  first : a.at? path = some (.object x)
  replaced : ∃ w, b.at? path = some w ∧ w.isObject = false
  third : c.at? path = some (.object z)

variable {a b c : Value} {path : List String} {x z : Fields}

/-- If the first two are merged first, the third holds the place alone. -/
theorem Returns.at?_left (h : Returns a b c path x z) (hb : b.DistinctKeys)
    (hc : c.DistinctKeys) : (deep (deep a b) c).at? path = some (.object z) := by
  obtain ⟨-, ⟨w, hw, hleaf⟩, hz⟩ := h
  have hab : (deep a b).at? path = some w := by
    rw [deep, at?_deepOver_of_some (some a) hb hw, deepOver_of_isObject_eq_false _ hleaf]
  rw [deep, at?_deepOver_of_some _ hc hz, Option.bind_some, hab,
    deepOver_some_of_isObject_eq_false hleaf]

/-- If the last two are merged first, the first is still there below the third. -/
theorem Returns.at?_right (h : Returns a b c path x z) (hb : b.DistinctKeys)
    (hc : c.DistinctKeys) :
    (deep a (deep b c)).at? path = some (deep (.object x) (.object z)) := by
  obtain ⟨hx, ⟨w, hw, hleaf⟩, hz⟩ := h
  have hbc : (deep b c).at? path = some (.object z) := by
    rw [deep, at?_deepOver_of_some (some b) hc hz, Option.bind_some, hw,
      deepOver_some_of_isObject_eq_false hleaf]
  have hdistinct : (deep b c).DistinctKeys :=
    hereditary_deepOver Value.hereditary_distinctKeys (some b) c
      (fun v hv => Option.some.inj hv ▸ hb) hc
  rw [deep, at?_deepOver_of_some _ hdistinct hbc, Option.bind_some, hx, deep]

/-- **When a merge may be regrouped.** Three objects come out the same in both groupings, to the
order of the keys, exactly if the third hides the first wherever both hold objects and the second
holds something else. At each of these places the grouping of the first two holds what the third
holds there, and the grouping of the last two holds that laid over what the first holds. -/
theorem deep_regroup_iff {a b c : Fields} (ha : (Value.object a).DistinctKeys)
    (hb : (Value.object b).DistinctKeys) (hc : (Value.object c).DistinctKeys) :
    (deep (deep (.object a) (.object b)) (.object c)
        = deep (.object a) (deep (.object b) (.object c))
      ↔ ∀ path ≠ [], ∀ x z, Returns (.object a) (.object b) (.object c) path x z →
        deep (.object x) (.object z) = .object z)
    ∧ ∀ path x z, Returns (.object a) (.object b) (.object c) path x z →
        (deep (deep (.object a) (.object b)) (.object c)).at? path = some (.object z)
        ∧ (deep (.object a) (deep (.object b) (.object c))).at? path
          = some (deep (.object x) (.object z)) := by
  have hplaces (path : List String) (x z : Fields)
      (h : Returns (.object a) (.object b) (.object c) path x z) :=
    And.intro (h.at?_left hb hc) (h.at?_right hb hc)
  refine ⟨⟨?_, ?_⟩, hplaces⟩
  · intro hsame path _ x z hreturns
    -- both groupings hold the same at this place, too
    obtain ⟨hleft, hright⟩ := hplaces path x z hreturns
    rw [hsame, hright] at hleft
    exact Option.some.inj hleft
  · intro hcovered
    refine (deep_assoc_iff ha hb hc).mpr ?_
    rintro path hpath _ w _ hu hw hv x z rfl hleaf rfl
    exact hcovered path hpath x z ⟨hu, ⟨w, hw, hleaf⟩, hv⟩

/-- An object two levels down. -/
def nested : Fields :=
  [("p", .object [("q", .object [("x", .number (.integer 1))]), ("r", .null)])]

/-- An object that puts an array in the place of that object. -/
def nestedReplaced : Fields := [("p", .object [("q", .array [.null])])]

/-- An object that puts an object in that place again, before another key. -/
def nestedAgain : Fields :=
  [("p", .object [("q", .object [("y", .number (.integer 2))]), ("s", .bool true)])]

/-- Two levels down the object comes back, and so the groupings differ. -/
theorem deep_regroup_nested :
    (Value.object nested).DistinctKeys ∧ (Value.object nestedReplaced).DistinctKeys
      ∧ (Value.object nestedAgain).DistinctKeys
      ∧ deep (deep (.object nested) (.object nestedReplaced)) (.object nestedAgain)
        ≠ deep (.object nested) (deep (.object nestedReplaced) (.object nestedAgain))
      ∧ (deep (.object nested) (deep (.object nestedReplaced) (.object nestedAgain))).at? ["p", "q"]
        = some (.object [("x", .number (.integer 1)), ("y", .number (.integer 2))]) := by
  have hfirst : (Value.object nested).DistinctKeys := by decide
  have hsecond : (Value.object nestedReplaced).DistinctKeys := by decide
  have hthird : (Value.object nestedAgain).DistinctKeys := by decide
  have hreturns : Returns (.object nested) (.object nestedReplaced) (.object nestedAgain)
      ["p", "q"] [("x", .number (.integer 1))] [("y", .number (.integer 2))] :=
    ⟨rfl, ⟨_, rfl, rfl⟩, rfl⟩
  obtain ⟨hiff, hplaces⟩ := deep_regroup_iff hfirst hsecond hthird
  refine ⟨hfirst, hsecond, hthird, fun hsame => ?_, (hplaces _ _ _ hreturns).2⟩
  exact absurd (hiff.mp hsame _ (List.cons_ne_nil _ _) _ _ hreturns) (by decide)

end Merge

end StageVars

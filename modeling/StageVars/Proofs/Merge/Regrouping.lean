import StageVars.Proofs.Merge.Layers
/-!
# StageVars.Proofs.Merge.Regrouping -- which two of three objects are merged first

Of three objects, the first two may be merged first or the last two. The keys come out the
same and in the same order, and so does whatever is replaced; but an object of the first
that gives way to something else in the second comes back if the third holds an object
there and the last two are merged first. Grouping makes no difference exactly when all that
could come back in this way is hidden anyway.

* `NothingReturns`: the paths on which it depends.
* `get?_deepFields_regroup`: the two groupings at one key.
* `deep_assoc_iff`: when they are equal.
* `deep_assoc_of_nothingReturns`: for two overlays and for two merges.
-/

namespace StageVars

namespace Merge

/-! ## What may come back -/

/-- If `u` and `v` are objects and `w` is something else, `v` hides all of `u`. -/
def Covered (u w v : Value) : Prop :=
  ∀ x z, u = .object x → w.isObject = false → v = .object z →
    deep (.object x) (.object z) = .object z

/-- Nothing of `a` comes back past `b`: what the three hold at the end of a path is covered,
whichever path leads into all of them. -/
def NothingReturns (a b c : Value) : Prop :=
  ∀ path ≠ [], ∀ u w v, a.at? path = some u → b.at? path = some w → c.at? path = some v →
    Covered u w v

theorem covered_of_isObject {w : Value} (h : w.isObject = true) (u v : Value) : Covered u w v := by
  rintro x z - hw -
  rw [h] at hw
  cases hw

/-- Unless all three are objects, nothing comes back: no path leads into all of them. -/
theorem nothingReturns_of_isObject_eq_false {a b c : Value}
    (h : a.isObject = false ∨ b.isObject = false ∨ c.isObject = false) :
    NothingReturns a b c := by
  rintro (_ | ⟨key, path⟩) hpath u w v ha hb hc
  · exact absurd rfl hpath
  · rcases h with h | h | h
    · rw [Value.at?_cons_of_isObject_eq_false h] at ha
      cases ha
    · rw [Value.at?_cons_of_isObject_eq_false h] at hb
      cases hb
    · rw [Value.at?_cons_of_isObject_eq_false h] at hc
      cases hc

/-- In objects, what a key that all three have holds is covered, and nothing comes back
further down from there. -/
theorem nothingReturns_object_iff (a b c : Fields) :
    NothingReturns (.object a) (.object b) (.object c)
      ↔ ∀ key u w v, Fields.get? a key = some u → Fields.get? b key = some w →
        Fields.get? c key = some v → Covered u w v ∧ NothingReturns u w v := by
  constructor
  · intro h key u w v ha hb hc
    have hstep (path : List String) {fields : Fields} {value : Value}
        (hvalue : Fields.get? fields key = some value) :
        (Value.object fields).at? (key :: path) = value.at? path := by
      rw [Value.at?_object_cons, hvalue, Option.bind_some]
    constructor
    · exact h [key] (List.cons_ne_nil _ _) u w v (hstep [] ha) (hstep [] hb) (hstep [] hc)
    · intro path _ u' w' v' hu hw hv
      exact h (key :: path) (List.cons_ne_nil _ _) u' w' v' ((hstep path ha).trans hu)
        ((hstep path hb).trans hw) ((hstep path hc).trans hv)
  · rintro h (_ | ⟨key, path⟩) hpath u w v ha hb hc
    · exact absurd rfl hpath
    · rw [Value.at?_object_cons, Option.bind_eq_some_iff] at ha hb hc
      obtain ⟨u', hu, ha⟩ := ha
      obtain ⟨w', hw, hb⟩ := hb
      obtain ⟨v', hv, hc⟩ := hc
      obtain ⟨hhere, hbelow⟩ := h key u' w' v' hu hw hv
      cases path with
      | nil =>
        -- the path ends at the key itself
        obtain rfl := Option.some.inj ha
        obtain rfl := Option.some.inj hb
        obtain rfl := Option.some.inj hc
        exact hhere
      | cons next path => exact hbelow _ (List.cons_ne_nil _ _) u w v ha hb hc

/-! ## The two groupings at one key -/

/-- At one key the groupings differ at most if the last two objects both have it. -/
theorem get?_deepFields_regroup (a : Fields) {b c : Fields} (hb : (Fields.keys b).Nodup)
    (hc : (Fields.keys c).Nodup) (key : String) :
    Fields.get? (deepFields (deepFields a b) c) key
        = Fields.get? (deepFields a (deepFields b c)) key
      ↔ ∀ w v, Fields.get? b key = some w → Fields.get? c key = some v →
        deepOver (some (deepOver (Fields.get? a key) w)) v
          = deepOver (Fields.get? a key) (deepOver (some w) v) := by
  rw [get?_deepFields _ hc, get?_deepFields _ hb, get?_deepFields _ (nodup_keys_deepFields hb c),
    get?_deepFields _ hc]
  cases Fields.get? b key <;> cases Fields.get? c key <;> simp

/-- Both groupings have their keys in order of first appearance. -/
theorem keys_deepFields_regroup {a b : Fields} (ha : (Fields.keys a).Nodup)
    (hb : (Fields.keys b).Nodup) (c : Fields) :
    Fields.keys (deepFields (deepFields a b) c) = Fields.keys (deepFields a (deepFields b c)) := by
  rw [keys_deepFields (nodup_keys_deepFields ha b), keys_deepFields ha, keys_deepFields ha,
    keys_deepFields hb, eraseDups_eraseDups_append, eraseDups_append_eraseDups, List.append_assoc]

/-- The groupings are equal if they are at every key that the last two objects have. -/
theorem deepFields_assoc_iff_forall {a b c : Fields} (ha : (Fields.keys a).Nodup)
    (hb : (Fields.keys b).Nodup) (hc : (Fields.keys c).Nodup) :
    deepFields (deepFields a b) c = deepFields a (deepFields b c)
      ↔ ∀ key w v, Fields.get? b key = some w → Fields.get? c key = some v →
        deepOver (some (deepOver (Fields.get? a key) w)) v
          = deepOver (Fields.get? a key) (deepOver (some w) v) := by
  constructor
  · intro h key
    exact (get?_deepFields_regroup a hb hc key).mp (by rw [h])
  · intro h
    refine Fields.ext_get? (nodup_keys_deepFields (nodup_keys_deepFields ha b) c)
      (keys_deepFields_regroup ha hb c) fun key => ?_
    exact (get?_deepFields_regroup a hb hc key).mpr (h key)

/-! ## The two groupings of values -/

/-- Over no object, and under something that is no object, grouping makes no difference. -/
theorem deepOver_regroup_of_replaced {before : Option Value} {w v : Value}
    (h : (∀ fields, before ≠ some (.object fields)) ∨ v.isObject = false) :
    deepOver (some (deepOver before w)) v = deepOver before (deepOver (some w) v) := by
  rcases h with hbefore | hv
  · rcases object_or_deepOver_eq before with ⟨fields, rfl⟩ | ⟨hreplaced, -⟩
    · exact absurd rfl (hbefore fields)
    · rw [hreplaced, hreplaced]
  · rw [deepOver_of_isObject_eq_false _ hv, deepOver_of_isObject_eq_false _ hv,
      deepOver_of_isObject_eq_false _ hv]

/-- Past something that is no object, grouping makes no difference exactly when the last
object hides the first. -/
theorem deepOver_regroup_past {w : Value} (hw : w.isObject = false) (x z : Fields) :
    deepOver (some (deepOver (some (.object x)) w)) (.object z)
        = deepOver (some (.object x)) (deepOver (some w) (.object z))
      ↔ deep (.object x) (.object z) = .object z := by
  rw [deepOver_of_isObject_eq_false _ hw, deepOver_some_of_isObject_eq_false hw]
  exact eq_comm

/-- The groupings of three objects are equal exactly when nothing comes back, if at each key
that all three have this is so for what they hold there. -/
theorem deepFields_assoc_iff {a b c : Fields} (ha : (Fields.keys a).Nodup)
    (hb : (Fields.keys b).Nodup) (hc : (Fields.keys c).Nodup)
    (h : ∀ key u w v, Fields.get? a key = some u → Fields.get? b key = some w →
      Fields.get? c key = some v →
      (deepOver (some (deepOver (some u) w)) v = deepOver (some u) (deepOver (some w) v)
        ↔ Covered u w v ∧ NothingReturns u w v)) :
    deepFields (deepFields a b) c = deepFields a (deepFields b c)
      ↔ NothingReturns (.object a) (.object b) (.object c) := by
  rw [deepFields_assoc_iff_forall ha hb hc, nothingReturns_object_iff]
  constructor
  · intro hsame key u w v hu hw hv
    have hkey := hsame key w v hw hv
    rw [hu] at hkey
    exact (h key u w v hu hw hv).mp hkey
  · intro hnothing key w v hw hv
    cases hu : Fields.get? a key with
    | none => exact deepOver_regroup_of_replaced (Or.inl nofun)
    | some u => exact (h key u w v hu hw hv).mpr (hnothing key u w v hu hw hv)

/-- The groupings of three values are equal exactly when the first is covered and nothing of
it comes back further down. -/
theorem deepOver_assoc_iff {u w v : Value} (hu : u.DistinctKeys) (hw : w.DistinctKeys)
    (hv : v.DistinctKeys) :
    deepOver (some (deepOver (some u) w)) v = deepOver (some u) (deepOver (some w) v)
      ↔ Covered u w v ∧ NothingReturns u w v := by
  -- the third value carries the induction: below a key that all three have it is smaller
  induction v using Value.byKeys generalizing u w with
  | leaf v hleaf =>
    refine iff_of_true (deepOver_regroup_of_replaced (Or.inr hleaf)) ⟨?_, ?_⟩
    · rintro x z - - rfl
      cases hleaf
    · exact nothingReturns_of_isObject_eq_false (Or.inr (Or.inr hleaf))
  | object c ih =>
    cases hobju : u.isObject with
    | false =>
      -- there is nothing that could come back
      have hnone : ∀ fields, some u ≠ some (.object fields) := by
        rintro fields ⟨⟩
        cases hobju
      refine iff_of_true (deepOver_regroup_of_replaced (Or.inl hnone)) ⟨?_, ?_⟩
      · rintro x z rfl - -
        cases hobju
      · exact nothingReturns_of_isObject_eq_false (Or.inl hobju)
    | true =>
      obtain ⟨a, rfl⟩ := u.isObject_iff.mp hobju
      cases hobjw : w.isObject with
      | false =>
        -- the one place where the groupings can differ
        have hbelow : NothingReturns (.object a) w (.object c) :=
          nothingReturns_of_isObject_eq_false (Or.inr (Or.inl hobjw))
        rw [deepOver_regroup_past hobjw, and_iff_left hbelow]
        constructor
        · rintro h x z ⟨⟩ - ⟨⟩
          exact h
        · intro h
          exact h a c rfl hobjw rfl
      | true =>
        -- of three objects nothing is replaced here, and their keys decide
        have hhere := covered_of_isObject hobjw (.object a) (.object c)
        obtain ⟨b, rfl⟩ := w.isObject_iff.mp hobjw
        rw [deepOver_object_object, deepOver_object_object, deepOver_object_object,
          deepOver_object_object, Value.object.injEq, and_iff_right hhere]
        refine deepFields_assoc_iff hu.nodup hw.nodup hv.nodup ?_
        intro key u w v ha hb hc
        exact ih key v hc (hu.get? ha) (hw.get? hb) (hv.get? hc)

/-- The groupings of three objects are equal, to the order of the keys, exactly when nothing
of the first comes back past the second. -/
theorem deep_assoc_iff {a b c : Fields} (ha : (Value.object a).DistinctKeys)
    (hb : (Value.object b).DistinctKeys) (hc : (Value.object c).DistinctKeys) :
    deep (deep (.object a) (.object b)) (.object c)
        = deep (.object a) (deep (.object b) (.object c))
      ↔ NothingReturns (.object a) (.object b) (.object c) := by
  have hhere : Covered (.object a) (.object b) (.object c) := covered_of_isObject rfl _ _
  rw [deep, deep, deep, deep, deepOver_assoc_iff ha hb hc, and_iff_right hhere]

/-! ## The two groupings of objects -/

/-- The merge of two objects is the one laid over the other. -/
theorem deep_merge_pair {a : Fields} (ha : (Fields.keys a).Nodup) (b : Fields) :
    Strategy.deep.merge [some (.object a), some (.object b)] = deep (.object a) (.object b) := by
  rw [deep, deepOver_object_object]
  show Value.object (deepFields (deepFields [] a) b) = _
  rw [deepFields_nil_left ha]

/-- **Three objects may be merged in either grouping if nothing comes back.** Unless an object
of the first that something else in the second replaces would show through an object of the
third, it makes no difference, to the order of the keys, whether the first two are merged
first or the last two, by overlays and by merges of two sources. -/
theorem deep_assoc_of_nothingReturns {a b c : Fields} (ha : (Value.object a).DistinctKeys)
    (hb : (Value.object b).DistinctKeys) (hc : (Value.object c).DistinctKeys)
    (h : NothingReturns (.object a) (.object b) (.object c)) :
    deep (deep (.object a) (.object b)) (.object c)
        = deep (.object a) (deep (.object b) (.object c))
      ∧ Strategy.deep.merge
          [some (Strategy.deep.merge [some (.object a), some (.object b)]), some (.object c)]
        = Strategy.deep.merge
          [some (.object a), some (Strategy.deep.merge [some (.object b), some (.object c)])] := by
  have hdeep := (deep_assoc_iff ha hb hc).mpr h
  refine ⟨hdeep, ?_⟩
  have hab : deep (.object a) (.object b) = .object (deepFields a b) := deepOver_object_object a b
  have hbc : deep (.object b) (.object c) = .object (deepFields b c) := deepOver_object_object b c
  rw [deep_merge_pair ha.nodup, deep_merge_pair hb.nodup, hab, hbc,
    deep_merge_pair (nodup_keys_deepFields ha.nodup b), deep_merge_pair ha.nodup, ← hab, ← hbc,
    hdeep]

/-- An object with an object in it. -/
def grown : Fields := [("k", .object [("x", .number (.integer 1))])]

/-- An object that puts a number in the place of that object. -/
def replaced : Fields := [("k", .number (.integer 5))]

/-- An object that puts an object in that place again. -/
def grownAgain : Fields := [("k", .object [("y", .number (.integer 2))])]

/-- The same with a key that hides what was there at first. -/
def grownOver : Fields := [("k", .object [("x", .null), ("y", .number (.integer 2))])]

/-- What the number replaced is hidden, and makes no difference. -/
theorem deep_assoc_grownOver :
    (Value.object grown).DistinctKeys ∧ (Value.object replaced).DistinctKeys
      ∧ (Value.object grownOver).DistinctKeys
      ∧ NothingReturns (.object grown) (.object replaced) (.object grownOver)
      ∧ deep (deep (.object grown) (.object replaced)) (.object grownOver)
        = deep (.object grown) (deep (.object replaced) (.object grownOver)) := by
  have hgrown : (Value.object grown).DistinctKeys := by decide
  have hreplaced : (Value.object replaced).DistinctKeys := by decide
  have hover : (Value.object grownOver).DistinctKeys := by decide
  have hnothing : NothingReturns (.object grown) (.object replaced) (.object grownOver) := by
    rw [nothingReturns_object_iff]
    intro key u w v hu hw hv
    have hmem : (key, w) ∈ replaced := Fields.mem_of_get? hw
    obtain ⟨rfl, rfl⟩ := Prod.mk.inj (List.mem_singleton.mp hmem)
    obtain rfl := Option.some.inj hu
    obtain rfl := Option.some.inj hv
    refine ⟨?_, nothingReturns_of_isObject_eq_false (Or.inr (Or.inl rfl))⟩
    rintro x z ⟨⟩ - ⟨⟩
    decide
  exact ⟨hgrown, hreplaced, hover, hnothing,
    (deep_assoc_of_nothingReturns hgrown hreplaced hover hnothing).1⟩

/-- Unless it is hidden, what the number replaced comes back if the last two objects are
merged first. -/
theorem deep_not_assoc :
    deep (deep (.object grown) (.object replaced)) (.object grownAgain)
        ≠ deep (.object grown) (deep (.object replaced) (.object grownAgain))
      ∧ Strategy.deep.merge [some (Strategy.deep.merge [some (.object grown),
          some (.object replaced)]), some (.object grownAgain)]
        ≠ Strategy.deep.merge [some (.object grown), some (Strategy.deep.merge
          [some (.object replaced), some (.object grownAgain)])] := by
  decide

end Merge

end StageVars

import StageVars.Json.Decode
import StageVars.Proofs.Value.Hereditary
import StageVars.Yaml.Document
/-!
# StageVars.Proofs.Value.Documents -- what is true of all that is read from a text

A document is put together from leaves whose numbers fit, items and entries, so that every
hereditary property is one of every document. Two of them are used: an object may name a key
twice in its text, but what is read is the object that its entries are written to.

* `Json.hereditary_decode?`, `Yaml.hereditary_decode?`: documents in the two forms.
-/

namespace StageVars

open Value (Hereditary)

namespace Json

/-- What is read with some fuel, alone or inside another tree, has a property. -/
structure Reads (P : Value → Prop) (fuel : Nat) : Prop where
  value : ∀ {depth cs v rest}, value? fuel depth cs = some (v, rest) → P v
  items : ∀ {depth cs vs rest}, items? fuel depth cs = some (vs, rest) → ∀ v ∈ vs, P v
  entries : ∀ {depth cs entries rest}, entries? fuel depth cs = some (entries, rest) →
    ∀ entry ∈ entries, P entry.2

namespace Reads

variable {P : Value → Prop} {fuel depth : Nat} {cs rest : List Char}

theorem zero : Reads P 0 := ⟨nofun, nofun, nofun⟩

theorem value_succ (hP : Hereditary P) (h : Reads P fuel) {v : Value}
    (hread : value? (fuel + 1) depth cs = some (v, rest)) : P v := by
  rw [value?] at hread
  split at hread
  next => cases hread; exact hP.null
  next => cases hread; exact hP.bool true
  next => cases hread; exact hP.bool false
  next =>
    obtain ⟨_, -, hread⟩ := Option.bind_eq_some_iff.mp hread
    cases hread
    exact hP.string _
  next =>
    split at hread
    next => cases hread
    next =>
      split at hread
      next => cases hread; exact (hP.array_iff []).mpr nofun
      next =>
        obtain ⟨⟨vs, _⟩, hvs, hread⟩ := Option.bind_eq_some_iff.mp hread
        cases hread
        exact (hP.array_iff vs).mpr (h.items hvs)
  next =>
    split at hread
    next => cases hread
    next =>
      split at hread
      next => cases hread; exact hP.empty
      next =>
        obtain ⟨⟨entries, _⟩, hentries, hread⟩ := Option.bind_eq_some_iff.mp hread
        cases hread
        exact hP.ofEntries (h.entries hentries)
  next =>
    obtain ⟨_, -, hread⟩ := Option.bind_eq_some_iff.mp hread
    obtain ⟨n, hn, hread⟩ := Option.bind_eq_some_iff.mp hread
    cases hread
    exact hP.number n (Numeral.fits_number? hn)

theorem items_succ (h : Reads P fuel) {vs : List Value}
    (hread : items? (fuel + 1) depth cs = some (vs, rest)) : ∀ v ∈ vs, P v := by
  rw [items?] at hread
  obtain ⟨⟨first, _⟩, hfirst, hread⟩ := Option.bind_eq_some_iff.mp hread
  have hfirst := h.value hfirst
  dsimp only at hread
  split at hread
  next =>
    obtain ⟨⟨more, _⟩, hmore, hread⟩ := Option.bind_eq_some_iff.mp hread
    cases hread
    exact List.forall_mem_cons.mpr ⟨hfirst, h.items hmore⟩
  next =>
    cases hread
    exact List.forall_mem_singleton.mpr hfirst
  next => cases hread

theorem entries_succ (h : Reads P fuel) {entries : Fields}
    (hread : entries? (fuel + 1) depth cs = some (entries, rest)) :
    ∀ entry ∈ entries, P entry.2 := by
  rw [entries?] at hread
  obtain ⟨⟨key, _⟩, -, hread⟩ := Option.bind_eq_some_iff.mp hread
  obtain ⟨⟨first, _⟩, hfirst, hread⟩ := Option.bind_eq_some_iff.mp hread
  have hfirst := h.value hfirst
  dsimp only at hread
  split at hread
  next =>
    obtain ⟨⟨more, _⟩, hmore, hread⟩ := Option.bind_eq_some_iff.mp hread
    cases hread
    exact List.forall_mem_cons.mpr ⟨hfirst, h.entries hmore⟩
  next =>
    cases hread
    exact List.forall_mem_singleton.mpr hfirst
  next => cases hread

end Reads

theorem reads {P : Value → Prop} (hP : Hereditary P) (fuel : Nat) : Reads P fuel := by
  induction fuel with
  | zero => exact Reads.zero
  | succ fuel ih => exact ⟨ih.value_succ hP, ih.items_succ, ih.entries_succ⟩

/-- A document in this form has every hereditary property. -/
theorem hereditary_decode? {P : Value → Prop} (hP : Hereditary P) {text : String} {v : Value}
    (h : decode? text = some v) : P v := by
  rw [decode?, decodeWithin?] at h
  split at h
  next hread =>
    split at h
    next =>
      cases h
      exact (reads hP _).value hread
    next => cases h
  next => cases h

end Json

namespace Yaml

/-- What a counted walk over a list comes to, it came to for some member. -/
theorem mem_of_mapM {α β : Type} {f : α → Counted β} {as : List α} {used used' : Nat}
    {bs : List β} (h : (as.mapM f).run used = some (bs, used')) {b : β} (hb : b ∈ bs) :
    ∃ a ∈ as, ∃ before after, (f a).run before = some (b, after) := by
  induction as generalizing used bs with
  | nil =>
    cases h
    cases hb
  | cons a rest ih =>
    rw [List.mapM_cons] at h
    obtain ⟨⟨first, between⟩, hfirst, h⟩ := Option.bind_eq_some_iff.mp h
    obtain ⟨⟨more, last⟩, hmore, h⟩ := Option.bind_eq_some_iff.mp h
    cases h
    rcases List.mem_cons.mp hb with rfl | hrest
    · exact ⟨a, List.mem_cons_self, used, between, hfirst⟩
    · obtain ⟨a', ha', hf⟩ := ih hmore hrest
      exact ⟨a', List.mem_cons_of_mem a ha', hf⟩

variable {P : Value → Prop}

theorem hereditary_meaning (hP : Hereditary P) {text : String} {m : Meaning} (hm : m.Fits)
    {v : Value} (h : m.value? text = some v) : P v := by
  rcases m with _ | _ | _ | _ | (_ | _) | _ <;> cases h
  case null => exact hP.null
  case bool => exact hP.bool _
  case integer => exact hP.number _ hm
  case float.none => exact hP.null
  case float.some => exact hP.number _ hm
  case text => exact hP.string _

/-- A scalar is read as a leaf whose number fits. -/
theorem hereditary_scalarValue? (hP : Hereditary P) {tag : Option Octets} {isPlain : Bool}
    {text : String} {v : Value} (h : scalarValue? tag isPlain text = some v) : P v := by
  simp only [scalarValue?] at h
  split at h
  next =>
    split at h
    · exact hereditary_meaning hP (Schema.fits_meaning text) h
    · cases h
      exact hP.string text
  next =>
    split at h
    · obtain ⟨b, -, rfl⟩ := Option.map_eq_some_iff.mp h
      exact hP.bool b
    · split at h
      · obtain ⟨_, hinteger, hm⟩ := Option.bind_eq_some_iff.mp h
        exact hereditary_meaning hP (Schema.fits_of_integerMeaning? hinteger) hm
      · split at h
        · obtain ⟨_, hfloat, hm⟩ := Option.bind_eq_some_iff.mp h
          exact hereditary_meaning hP (Schema.fits_of_float? hfloat) hm
        · split at h
          · split at h <;> cases h
            exact hP.null
          · split at h
            · exact hereditary_meaning hP (Schema.fits_meaning text) h
            · cases h
              exact hP.string text

/-- Every node is read as a tree with every hereditary property. -/
theorem hereditary_value (hP : Hereditary P) (x : Expansion) (depth : Nat) (node : Node Nat)
    {used used' : Nat} {v : Value} (h : (x.value depth node).run used = some (v, used')) :
    P v := by
  -- the members of a collection are read at a lower depth
  induction depth using Nat.strong_induction_on generalizing node used used' v with
  | _ depth ih =>
  rw [Expansion.value.eq_def] at h
  obtain ⟨⟨target, between⟩, -, h⟩ := Option.bind_eq_some_iff.mp h
  dsimp only at h
  split at h
  next props isPlain text =>
    split at h
    · cases h
    · obtain ⟨_, hscalar, h⟩ := Option.bind_eq_some_iff.mp h
      cases h
      exact hereditary_scalarValue? hP hscalar
  next props items =>
    split at h
    · cases h
    · cases depth with
      | zero => cases h
      | succ depth =>
        obtain ⟨⟨vs, _⟩, hvs, h⟩ := Option.bind_eq_some_iff.mp h
        cases h
        rw [hP.array_iff]
        intro v hv
        obtain ⟨item, -, _, _, hitem⟩ := mem_of_mapM hvs hv
        exact ih depth depth.lt_succ_self item hitem
  next props pairs =>
    split at h
    · cases h
    · cases depth with
      | zero => cases h
      | succ depth =>
        obtain ⟨⟨entries, _⟩, hentries, h⟩ := Option.bind_eq_some_iff.mp h
        cases h
        refine hP.ofEntries fun entry hentry => ?_
        obtain ⟨⟨k, item⟩, -, _, _, hpair⟩ := mem_of_mapM hentries hentry
        obtain ⟨⟨_, _⟩, -, hpair⟩ := Option.bind_eq_some_iff.mp hpair
        obtain ⟨⟨_, _⟩, hitem, hpair⟩ := Option.bind_eq_some_iff.mp hpair
        cases hpair
        exact ih depth depth.lt_succ_self item hitem
  next => cases h

/-- A document in this form has every hereditary property. -/
theorem hereditary_decode? (hP : Hereditary P) {text : String} {v : Value}
    (h : decode? text = some v) : P v := by
  obtain ⟨_, -, h⟩ := Option.bind_eq_some_iff.mp h
  obtain ⟨node?, -, h⟩ := Option.bind_eq_some_iff.mp h
  cases node? with
  | none =>
    cases h
    exact hP.null
  | some node =>
    obtain ⟨⟨_, anchors⟩, -, h⟩ := Option.bind_eq_some_iff.mp h
    obtain ⟨⟨_, _⟩, hread, h⟩ := Option.bind_eq_some_iff.mp h
    cases h
    exact hereditary_value hP _ _ _ hread

end Yaml

end StageVars

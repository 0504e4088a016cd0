import StageVars.Proofs.Value.Extensional
import StageVars.Service
/-!
# StageVars.Proofs.Service.Writing -- what a service holds after its sections were written

A write to a section puts objects in place of whatever stands in its way. It is seen in
that section and nowhere else: not in the other section, not in the stage that the provider
names, and not in the plugins.

* `get?_apply`: each section after changes of both.
* `stageFor_apply`, `plugins_apply`: what changes of the sections leave as it was.
* `apply_eq_self`: changes that change no section change nothing.
-/

namespace StageVars

theorem Value.get?_eq_get?_entries (v : Value) (key : String) :
    v.get? key = Fields.get? v.entries key := by
  cases v <;> rfl

theorem Value.entries_object (fields : Fields) : (object fields).entries = fields := rfl

namespace Service

variable (s : Service)

/-! ## One section -/

theorem get?_withCustom_of_ne {key : String} (h : key ≠ "custom") (v : Value) :
    (s.withCustom v).document.get? key = s.document.get? key := by
  rw [s.document.get?_eq_get?_entries]
  exact Fields.get?_insert_of_ne _ v h

theorem get?_withEnvironment_of_ne {key : String} (h : key ≠ "provider") (v : Value) :
    (s.withEnvironment v).document.get? key = s.document.get? key := by
  rw [s.document.get?_eq_get?_entries]
  exact Fields.get?_insert_of_ne _ _ h

/-- What the provider holds, by its entries; what is no object has none. -/
theorem provider?_eq (key : String) :
    s.provider? key
      = Fields.get? ((Fields.get? s.document.entries "provider").getD .empty).entries key := by
  rw [provider?, s.document.get?_eq_get?_entries]
  cases Fields.get? s.document.entries "provider" with
  | none => rfl
  | some provider => exact provider.get?_eq_get?_entries key

theorem provider?_withEnvironment (v : Value) (key : String) :
    (s.withEnvironment v).provider? key
      = Fields.get?
          (Fields.insert ((Fields.get? s.document.entries "provider").getD .empty).entries
            "environment" v) key := by
  rw [provider?_eq]
  show Fields.get? ((Fields.get? (Fields.insert _ "provider" _) "provider").getD .empty).entries
    key = _
  rw [Fields.get?_insert_self]
  rfl

theorem provider?_withCustom (v : Value) (key : String) :
    (s.withCustom v).provider? key = s.provider? key := by
  rw [provider?, provider?, s.get?_withCustom_of_ne (by decide)]

theorem provider?_withEnvironment_of_ne {key : String} (h : key ≠ "environment") (v : Value) :
    (s.withEnvironment v).provider? key = s.provider? key := by
  rw [provider?_withEnvironment, provider?_eq, Fields.get?_insert_of_ne _ v h]

@[simp] theorem get?_withSection_self (sec : Section) (v : Value) :
    (s.withSection sec v).get? sec = some v := by
  cases sec with
  | custom => exact Fields.get?_insert_self s.document.entries "custom" v
  | environment =>
    show (s.withEnvironment v).provider? "environment" = some v
    rw [provider?_withEnvironment, Fields.get?_insert_self]

theorem get?_withSection_of_ne {sec other : Section} (h : other ≠ sec) (v : Value) :
    (s.withSection sec v).get? other = s.get? other := by
  cases sec with
  | custom =>
    cases other with
    | custom => exact absurd rfl h
    | environment => exact s.provider?_withCustom v "environment"
  | environment =>
    cases other with
    | custom => exact s.get?_withEnvironment_of_ne (by decide) v
    | environment => exact absurd rfl h

theorem declaredStage_withSection (sec : Section) (v : Value) :
    (s.withSection sec v).declaredStage = s.declaredStage := by
  have hstage : (s.withSection sec v).provider? "stage" = s.provider? "stage" := by
    cases sec with
    | custom => exact s.provider?_withCustom v "stage"
    | environment => exact s.provider?_withEnvironment_of_ne (by decide) v
  rw [declaredStage, declaredStage, hstage]

theorem get?_plugins_withSection (sec : Section) (v : Value) :
    (s.withSection sec v).document.get? "plugins" = s.document.get? "plugins" := by
  cases sec with
  | custom => exact s.get?_withCustom_of_ne (by decide) v
  | environment => exact s.get?_withEnvironment_of_ne (by decide) v

theorem plugins_withSection (sec : Section) (v : Value) :
    (s.withSection sec v).plugins = s.plugins := by
  rw [plugins, plugins, get?_plugins_withSection]

/-- To write what a section holds already changes nothing. -/
theorem withSection_of_get? {sec : Section} {v : Value} (h : s.get? sec = some v) :
    s.withSection sec v = s := by
  obtain ⟨document⟩ := s
  cases sec with
  | custom =>
    cases document with
    | object root =>
      have hv : Fields.get? root "custom" = some v := h
      show (⟨.object (Fields.insert root "custom" v)⟩ : Service) = _
      rw [Fields.insert_of_get? hv]
    | _ => cases h
  | environment =>
    cases document with
    | object root =>
      obtain ⟨provider, hprovider, hv⟩ := Option.bind_eq_some_iff.mp h
      cases provider with
      | object fields =>
        have hprovider : Fields.get? root "provider" = some (.object fields) := hprovider
        have hv : Fields.get? fields "environment" = some v := hv
        simp only [withSection, withEnvironment, Value.entries, hprovider, Option.getD_some,
          Fields.insert_of_get? hv, Fields.insert_of_get? hprovider]
      | _ => cases hv
    | _ => cases h

/-! ## Both sections -/

theorem get?_change_self (sec : Section) (change : Change) :
    (s.change sec change).get? sec = change.after (s.get? sec) := by
  cases change with
  | kept => rfl
  | replaced v => exact s.get?_withSection_self sec v

theorem get?_change_of_ne {sec other : Section} (h : other ≠ sec) (change : Change) :
    (s.change sec change).get? other = s.get? other := by
  cases change with
  | kept => rfl
  | replaced v => exact s.get?_withSection_of_ne h v

/-- Each section holds what its own change makes of it. -/
theorem get?_apply (c : Changes) (sec : Section) :
    (s.apply c).get? sec = (c.get sec).after (s.get? sec) := by
  cases sec with
  | custom =>
    rw [apply, get?_change_of_ne _ (by decide), get?_change_self]
    rfl
  | environment =>
    rw [apply, get?_change_self, get?_change_of_ne _ (by decide)]
    rfl

/-- What no write changes, changes of both sections do not change. -/
theorem eq_of_apply {α : Type} {f : Service → α}
    (hf : ∀ (s : Service) sec v, f (s.withSection sec v) = f s) (c : Changes) :
    f (s.apply c) = f s := by
  have hchange (s : Service) (sec : Section) (change : Change) :
      f (s.change sec change) = f s := by
    cases change with
    | kept => rfl
    | replaced v => exact hf s sec v
  rw [apply, hchange, hchange]

theorem stageFor_apply (c : Changes) (asked : Option String) :
    (s.apply c).stageFor asked = s.stageFor asked := by
  rw [stageFor, stageFor, s.eq_of_apply declaredStage_withSection c]

theorem plugins_apply (c : Changes) : (s.apply c).plugins = s.plugins :=
  s.eq_of_apply plugins_withSection c

/-- A change that leaves a section with what it holds changes nothing. -/
theorem change_eq_self {sec : Section} {change : Change}
    (h : change.after (s.get? sec) = s.get? sec) : s.change sec change = s := by
  cases change with
  | kept => rfl
  | replaced v => exact s.withSection_of_get? h.symm

theorem apply_eq_self {c : Changes} (h : ∀ sec, (c.get sec).after (s.get? sec) = s.get? sec) :
    s.apply c = s := by
  have hcustom : s.change .custom c.custom = s := s.change_eq_self (h .custom)
  rw [apply, hcustom]
  exact s.change_eq_self (h .environment)

/-- The same changes once more change nothing. -/
theorem apply_apply_self (c : Changes) : (s.apply c).apply c = s.apply c := by
  refine apply_eq_self _ fun sec => ?_
  rw [get?_apply]
  cases c.get sec <;> rfl

end Service

end StageVars

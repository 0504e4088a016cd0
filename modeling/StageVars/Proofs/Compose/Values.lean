import StageVars.Proofs.Compose.Failing
import StageVars.Proofs.Lookup.Ensuring
import StageVars.Proofs.Merge.Keys
import StageVars.Proofs.Service.Writing
/-!
# StageVars.Proofs.Compose.Values -- what composed values get from documents and files

A section ends up with what the document says or with a merge of that and of files. So it has
every hereditary property that documents and files have, also if the files change while they are
read.

* `ensures_combine`, `ensures_value`: what a value is replaced by.
* `ensures_load`, `ensures_discover`: service documents.
* `outcome_compose_eq_ok_iff`, `ensures_compose`: a service is composed section by section.
* `hereditary_apply`: the sections of a composed service.
-/

namespace StageVars

open Value (Hereditary)

variable {P : Value → Prop} {files : FileView}

theorem FileView.Holds.of_held (hfiles : files.Holds P) {path : Option String}
    {source : Option Value} (h : files.held path = .ok source) : ∀ v ∈ source, P v := by
  rintro v rfl
  cases path with
  | none => cases h
  | some path => exact hfiles path v h

/-- What a value is replaced by, if it is, has a property. -/
def Change.Gives (P : Value → Prop) (change : Change) : Prop :=
  ∀ v, change = .replaced v → P v

theorem Change.gives_kept : Change.kept.Gives P := nofun

theorem Change.gives_replaced {v : Value} (h : P v) : (Change.replaced v).Gives P := by
  rintro _ ⟨⟩
  exact h

namespace Compose

open Composing

theorem hereditary_contribution (hP : Hereditary P) {literal : Option Value}
    (h : ∀ v ∈ literal, P v) : P (contribution literal) := by
  rcases literal with _ | _ | _ | _ | _ | _ | _
  case some.object | some.array => exact h _ rfl
  all_goals exact hP.empty

theorem ensures_source (path : Option String) :
    (source path).Ensures P fun source => ∀ v ∈ source, P v := by
  cases path with
  | none => exact ensures_pure nofun
  | some path => exact ensures_read path

/-- A merge of what has a property and of files that have it has it, too. -/
theorem ensures_combine (hP : Hereditary P) (strategy : Merge.Strategy) {inline : Option Value}
    (hinline : ∀ v ∈ inline, P v) (base stage : Option String) :
    (combine strategy inline base stage).Ensures P P := by
  refine ensures_bind (ensures_source base) fun first hfirst => ?_
  refine ensures_bind (ensures_source stage) fun second hsecond => ensures_pure ?_
  refine Merge.hereditary_merge hP strategy (List.forall_mem_cons.mpr ⟨hinline, ?_⟩)
  exact List.forall_mem_cons.mpr ⟨hfirst, List.forall_mem_singleton.mpr hsecond⟩

theorem ensures_referenced (hP : Hereditary P) (text stage : String) (strategy : Merge.Strategy) :
    (referenced text stage strategy).Ensures P (Change.Gives P) := by
  have hnone : ∀ v ∈ (none : Option Value), P v := nofun
  rw [referenced]
  split
  next => exact ensures_pure Change.gives_kept
  next r _ =>
    exact ensures_bind (ensures_combine hP strategy hnone _ _) fun v hv =>
      ensures_pure (Change.gives_replaced hv)

theorem ensures_withFiles (hP : Hereditary P) {literal : Option Value}
    (hliteral : ∀ v ∈ literal, P v) (stem stage : String) (strategy : Merge.Strategy) :
    (withFiles literal stem stage strategy).Ensures P (Change.Gives P) := by
  have hlocate (stem : Option String) :
      Ensures P (fun _ => True) (monadLift (Lookup.locate stem) : Composing (Option String)) :=
    ensures_lift (Lookup.ensures_of_forall (fun _ => trivial) _)
  have hinline : ∀ v ∈ some (contribution literal), P v := by
    rintro _ ⟨⟩
    exact hereditary_contribution hP hliteral
  refine ensures_bind (hlocate _) fun base _ => ensures_bind (hlocate _) fun staged _ => ?_
  split
  · exact ensures_pure Change.gives_kept
  · exact ensures_bind (ensures_combine hP strategy hinline base staged) fun v hv =>
      ensures_pure (Change.gives_replaced hv)

/-- What a value is replaced by is a merge of itself and of files. -/
theorem ensures_value (hP : Hereditary P) {literal : Option Value} (hliteral : ∀ v ∈ literal, P v)
    (stem stage : String) (strategy : Merge.Strategy) :
    (value literal stem stage strategy).Ensures P (Change.Gives P) := by
  match literal with
  | some (.bool _) | some (.number _) => exact ensures_pure Change.gives_kept
  | some (.string text) => exact ensures_referenced hP text stage strategy
  | none | some .null | some (.object _) | some (.array _) =>
    exact ensures_withFiles hP hliteral stem stage strategy

end Compose

namespace Service

open Composing

/-! ## Documents -/

theorem ensures_load (path : String) : (load path).Ensures P fun s => P s.document := by
  refine ensures_bind (ensures_read path) fun content hcontent => ?_
  cases content with
  | none => exact ensures_throw _
  | some v =>
    cases v with
    | object fields => exact ensures_pure (hcontent _ rfl)
    | _ => exact ensures_throw _

theorem ensures_discover (shownRoot : String) :
    (discover shownRoot).Ensures P fun s => P s.document := by
  refine ensures_bind (ensures_lift (Lookup.ensures_of_forall (fun _ => trivial) _))
    fun found (_ : True) => ?_
  cases found with
  | none => exact ensures_throw _
  | some path => exact ensures_load path

/-- What a section holds has a property if the document has it. -/
theorem hereditary_get? (hP : Hereditary P) {s : Service} (h : P s.document) (sec : Section) :
    ∀ v ∈ s.get? sec, P v := by
  have hget {w v : Value} {key : String} (hw : P w) (hv : w.get? key = some v) : P v := by
    cases w with
    | object fields => exact hP.get? hw hv
    | _ => cases hv
  intro v hv
  cases sec with
  | custom => exact hget h hv
  | environment =>
    obtain ⟨provider, hprovider, hv⟩ := Option.bind_eq_some_iff.mp hv
    exact hget (hget h hprovider) hv

/-! ## Composed services -/

/-- A service is composed when each of its sections is. -/
theorem outcome_compose_eq_ok_iff (s : Service) (stage : String) (c : Changes) :
    outcome files (s.compose stage) = .ok c
      ↔ ∀ sec, outcome files (sec.compose (s.get? sec) stage) = .ok (c.get sec) := by
  rw [compose_eq, outcome_bind, bind_eq_ok_iff]
  constructor
  · rintro ⟨custom, hcustom, h⟩
    rw [outcome_bind, bind_eq_ok_iff] at h
    obtain ⟨environment, henvironment, h⟩ := h
    obtain rfl : (⟨custom, environment⟩ : Changes) = c := Except.ok.inj h
    intro sec
    cases sec with
    | custom => exact hcustom
    | environment => exact henvironment
  · intro h
    refine ⟨c.custom, h .custom, ?_⟩
    rw [outcome_bind, bind_eq_ok_iff]
    exact ⟨c.environment, h .environment, rfl⟩

/-- What its sections are replaced by has every hereditary property of the document. -/
theorem ensures_compose (hP : Hereditary P) {s : Service} (h : P s.document) (stage : String) :
    (s.compose stage).Ensures P fun c => ∀ sec, (c.get sec).Gives P := by
  have hsection (sec : Section) :=
    Compose.ensures_value hP (hereditary_get? hP h sec) sec.stem stage sec.strategy
  refine ensures_bind (hsection .custom) fun custom hcustom => ?_
  refine ensures_bind (hsection .environment) fun environment henvironment => ensures_pure ?_
  intro sec
  cases sec with
  | custom => exact hcustom
  | environment => exact henvironment

/-- What a section of a composed service holds comes from its document and the files. -/
theorem hereditary_apply (hP : Hereditary P) {s : Service} (h : P s.document) {c : Changes}
    (hc : ∀ sec, (c.get sec).Gives P) (sec : Section) : ∀ v ∈ (s.apply c).get? sec, P v := by
  rw [get?_apply]
  cases hchange : c.get sec with
  | kept => exact hereditary_get? hP h sec
  | replaced v =>
    rintro _ ⟨⟩
    exact hc sec v hchange

end Service

end StageVars

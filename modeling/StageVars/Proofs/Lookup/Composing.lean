import StageVars.Compose
/-!
# StageVars.Proofs.Lookup.Composing -- lookups that may fail

Running a lookup that may fail gives an outcome and leaves calls. `outcome_bind` and
`calls_bind` say how they come about step by step: after a failure nothing more is asked.
From that, `StopsAtFailure` follows for whole compositions: the outcome is a failure
exactly when the last call, and no call before it, is a read that fails.
-/

namespace StageVars

/-- The failure that a call gives. -/
def Call.failure? : Call → Option Failure
  | .read _ (.error e) => some e
  | _ => none

/-- Whether a call reads. -/
def Call.isRead : Call → Bool
  | .read _ _ => true
  | .probe _ _ => false

/-- A step after another succeeds exactly when both do. -/
theorem bind_eq_ok_iff {ε α β : Type} {x : Except ε α} {f : α → Except ε β} {b : β} :
    x >>= f = .ok b ↔ ∃ a, x = .ok a ∧ f a = .ok b := by
  constructor
  · intro h
    cases x with
    | error e => cases h
    | ok a => exact ⟨a, rfl, h⟩
  · rintro ⟨a, rfl, h⟩
    exact h

/-- A step after another fails with the failure of the first step that does. -/
theorem bind_eq_error_iff {ε α β : Type} {x : Except ε α} {f : α → Except ε β} {e : ε} :
    x >>= f = .error e ↔ x = .error e ∨ ∃ a, x = .ok a ∧ f a = .error e := by
  cases x <;> simp [bind, Except.bind]

namespace Composing

variable {α β : Type} (files : FileView)

/-- What comes out. -/
def outcome (x : Composing α) : Except Failure α := x.run.result files

/-- The questions on the way. -/
def calls (x : Composing α) : List Call := x.run.calls files

/-! ## Step by step -/

@[simp] theorem outcome_pure (a : α) : outcome files (pure a : Composing α) = .ok a := rfl

@[simp] theorem calls_pure (a : α) : calls files (pure a : Composing α) = [] := rfl

@[simp] theorem outcome_read (path : String) :
    outcome files (ExceptT.mk (Lookup.contentOf path) : Composing (Option Value))
      = files.content path := rfl

@[simp] theorem calls_read (path : String) :
    calls files (ExceptT.mk (Lookup.contentOf path) : Composing (Option Value))
      = [.read path (files.content path)] := rfl

@[simp] theorem outcome_lift (x : Lookup α) :
    outcome files (monadLift x : Composing α) = .ok (x.result files) := by
  show (x >>= fun a => pure (Except.ok a)).result files = _
  rw [Lookup.result_bind, Lookup.result_pure]

@[simp] theorem calls_lift (x : Lookup α) :
    calls files (monadLift x : Composing α) = x.calls files := by
  show (x >>= fun a => pure (Except.ok a)).calls files = _
  rw [Lookup.calls_bind, Lookup.calls_pure, List.append_nil]

@[simp] theorem outcome_bind (x : Composing α) (f : α → Composing β) :
    outcome files (x >>= f) = outcome files x >>= fun a => outcome files (f a) := by
  show (x.run >>= ExceptT.bindCont f).result files = _
  rw [Lookup.result_bind]
  show (ExceptT.bindCont f (outcome files x)).result files = _
  cases outcome files x <;> rfl

theorem calls_bind (x : Composing α) (f : α → Composing β) :
    calls files (x >>= f)
      = calls files x ++ match outcome files x with
        | .ok a => calls files (f a)
        | .error _ => [] := by
  show (x.run >>= ExceptT.bindCont f).calls files = _
  rw [Lookup.calls_bind]
  show calls files x ++ (ExceptT.bindCont f (outcome files x)).calls files = _
  cases outcome files x <;> rfl

theorem calls_bind_of_ok {x : Composing α} {a : α} (h : outcome files x = .ok a)
    (f : α → Composing β) : calls files (x >>= f) = calls files x ++ calls files (f a) := by
  rw [calls_bind, h]

theorem calls_bind_of_error {x : Composing α} {e : Failure} (h : outcome files x = .error e)
    (f : α → Composing β) : calls files (x >>= f) = calls files x := by
  rw [calls_bind, h, List.append_nil]

/-! ## Whole compositions -/

/-- No call gives a failure when the outcome is none, and only the last one does when it
is. -/
def StopsAtFailure (x : Composing α) : Prop :=
  match outcome files x with
  | .ok _ => ∀ call ∈ calls files x, call.failure? = none
  | .error e => ∃ before path, calls files x = before ++ [.read path (.error e)]
      ∧ ∀ call ∈ before, call.failure? = none

variable {files}

theorem stopsAtFailure_pure (a : α) : StopsAtFailure files (pure a : Composing α) := by
  simp [StopsAtFailure]

theorem stopsAtFailure_read (path : String) :
    StopsAtFailure files (ExceptT.mk (Lookup.contentOf path) : Composing (Option Value)) := by
  rw [StopsAtFailure, outcome_read, calls_read]
  cases h : files.content path with
  | ok v => simp [Call.failure?]
  | error e => exact ⟨[], path, rfl, by simp⟩

/-- A lookup that only asks what is there gives no failure. -/
theorem stopsAtFailure_lift {x : Lookup α} (h : ∀ call ∈ x.calls files, call.isRead = false) :
    StopsAtFailure files (monadLift x : Composing α) := by
  rw [StopsAtFailure, outcome_lift, calls_lift]
  intro call hcall
  cases call with
  | probe path found => rfl
  | read path result => exact absurd (h _ hcall) (by simp [Call.isRead])

/-- One composition after another stops at the first failure of both. -/
theorem StopsAtFailure.bind {x : Composing α} {f : α → Composing β}
    (hx : StopsAtFailure files x) (hf : ∀ a, StopsAtFailure files (f a)) :
    StopsAtFailure files (x >>= f) := by
  rw [StopsAtFailure] at hx ⊢
  rw [outcome_bind]
  cases h : outcome files x with
  | error e =>
    rw [h] at hx
    rw [calls_bind_of_error files h]
    exact hx
  | ok a =>
    simp only [h] at hx
    have hfa := hf a
    rw [StopsAtFailure] at hfa
    rw [calls_bind_of_ok files h]
    show match outcome files (f a) with | .ok _ => _ | .error e => _
    cases hb : outcome files (f a) with
    | ok b =>
      simp only [hb] at hfa
      exact fun call hcall => (List.mem_append.mp hcall).elim (hx call) (hfa call)
    | error e =>
      simp only [hb] at hfa
      obtain ⟨before, path, hcalls, hbefore⟩ := hfa
      refine ⟨calls files x ++ before, path, ?_, ?_⟩
      · rw [hcalls, List.append_assoc]
      · exact fun call hcall => (List.mem_append.mp hcall).elim (hx call) (hbefore call)

/-- The outcome is a failure exactly when the calls end with the read that gives it. -/
theorem StopsAtFailure.outcome_eq_error_iff {x : Composing α} (h : StopsAtFailure files x)
    (e : Failure) :
    outcome files x = .error e
      ↔ ∃ before path, calls files x = before ++ [.read path (.error e)]
        ∧ ∀ call ∈ before, call.failure? = none := by
  rw [StopsAtFailure] at h
  constructor
  · intro he
    rwa [he] at h
  · rintro ⟨before, path, hcalls, -⟩
    cases ho : outcome files x with
    | ok a =>
      rw [ho] at h
      have hlast : Call.read path (.error e) ∈ calls files x := by simp [hcalls]
      cases h _ hlast
    | error e' =>
      rw [ho] at h
      obtain ⟨before', path', hcalls', -⟩ := h
      -- both lists of calls are the same, so they end with the same call
      have hends := (List.append_inj' (hcalls.symm.trans hcalls') rfl).2
      simp only [List.cons.injEq, Call.read.injEq, Except.error.injEq] at hends
      rw [hends.1.2]

/-- There is a failure exactly when some call gives one. -/
theorem StopsAtFailure.exists_error_iff {x : Composing α} (h : StopsAtFailure files x) :
    (∃ e, outcome files x = .error e) ↔ ∃ call ∈ calls files x, call.failure?.isSome := by
  rw [StopsAtFailure] at h
  cases ho : outcome files x with
  | ok a =>
    rw [ho] at h
    refine iff_of_false (by simp) ?_
    rintro ⟨call, hcall, hsome⟩
    rw [h call hcall] at hsome
    cases hsome
  | error e =>
    rw [ho] at h
    obtain ⟨before, path, hcalls, -⟩ := h
    exact iff_of_true ⟨e, rfl⟩ ⟨.read path (.error e), by simp [hcalls], rfl⟩

end Composing

end StageVars

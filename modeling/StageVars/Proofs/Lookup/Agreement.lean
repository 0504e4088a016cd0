import StageVars.Proofs.Compose.Resolution
/-!
# StageVars.Proofs.Lookup.Agreement -- views that answer alike

What a lookup comes to depends on the answers that it gets and on nothing else. So a view
that answers the questions of one run as they were answered leads to the same run, however
it answers all others.

* `Lookup.run_eq_of_answers`: the same answers make the same run.
* `FileView.AgreeOn`: what two views share about a stem.
* `answers_of_mem_probes`, `answers_of_mem_reads`: why that is all that a search for the
  stem asks about.
-/

namespace StageVars

/-- A view gives the answer that a call got. -/
def FileView.Answers (files : FileView) : Call → Prop
  | .probe path found => files.present path = found
  | .read path result => files.content path = result

namespace Lookup

variable {α : Type} {files files' : FileView}

/-- The same answers make the same run. -/
theorem run_eq_of_answers {x : Lookup α} (h : ∀ call ∈ x.calls files, files'.Answers call) :
    x.result files' = x.result files ∧ x.calls files' = x.calls files := by
  induction x with
  | done a => exact ⟨rfl, rfl⟩
  | probe path next ih =>
    obtain ⟨hanswer, hrest⟩ := List.forall_mem_cons.mp h
    have hpresent : files'.present path = files.present path := hanswer
    obtain ⟨hresult, hcalls⟩ := ih (files.present path) hrest
    rw [result, calls, hpresent, hresult, hcalls]
    exact ⟨rfl, rfl⟩
  | read path next ih =>
    obtain ⟨hanswer, hrest⟩ := List.forall_mem_cons.mp h
    have hcontent : files'.content path = files.content path := hanswer
    obtain ⟨hresult, hcalls⟩ := ih (files.content path) hrest
    rw [result, calls, hcontent, hresult, hcalls]
    exact ⟨rfl, rfl⟩

end Lookup

namespace FileView

variable {files files' : FileView}

/-- Two views agree on a stem: on which of its candidates are there, and on what the first
of these holds. -/
def AgreeOn (files files' : FileView) (stem : String) : Prop :=
  (∀ path ∈ candidates stem, files'.present path = files.present path)
    ∧ ∀ path ∈ files.firstPresent (candidates stem), files'.content path = files.content path

theorem answers_of_mem_probes {paths : List String}
    (h : ∀ path ∈ paths, files'.present path = files.present path) {call : Call}
    (hcall : call ∈ files.probes paths) : files'.Answers call := by
  rcases List.mem_append.mp hcall with hno | hyes
  · obtain ⟨path, hpath, rfl⟩ := List.mem_map.mp hno
    have habsent : files.present path = false := by
      simpa using List.all_eq_true.mp List.all_takeWhile path hpath
    exact (h path ((List.takeWhile_sublist _).mem hpath)).trans habsent
  · obtain ⟨path, hpath, rfl⟩ := List.mem_map.mp hyes
    have hfound := Option.mem_toList.mp hpath
    exact (h path (List.mem_of_find?_eq_some hfound)).trans (List.find?_some hfound)

theorem answers_of_mem_reads {paths : List String}
    (h : ∀ path ∈ paths, files'.content path = files.content path) {call : Call}
    (hcall : call ∈ files.reads paths) : files'.Answers call := by
  induction paths with
  | nil => cases hcall
  | cons path rest ih =>
    obtain ⟨hpath, hrest⟩ := List.forall_mem_cons.mp h
    rw [reads] at hcall
    rcases List.mem_cons.mp hcall with rfl | hlater
    · exact hpath
    · -- after a failure nothing is read
      cases hfail : files.failureAt path with
      | none =>
        rw [hfail] at hlater
        exact ih hrest hlater
      | some e =>
        rw [hfail] at hlater
        cases hlater

end FileView

end StageVars

/-!
# StageVars.Proofs.Reference.LastSplit -- the last place to cut a text

A greedy search cuts a text in two as late as it can, and goes back place by place until
the rest fits. `lastSplit?` is that search for any test of the two parts, and
`lastSplit?_eq_some_iff` says what it finds without any order of trying.
-/

namespace StageVars

variable {α β : Type}

/-- What a test finds at the last place to cut a list in two where it finds anything. -/
def lastSplit? (test : List α → List α → Option β) : List α → Option β
  | [] => test [] []
  | a :: rest =>
    (lastSplit? (fun before after => test (a :: before) after) rest).or (test [] (a :: rest))

theorem map_lastSplit? {γ : Type} (f : β → γ) (test : List α → List α → Option β) (as : List α) :
    (lastSplit? test as).map f
      = lastSplit? (fun before after => (test before after).map f) as := by
  induction as generalizing test with
  | nil => rfl
  | cons a rest ih => rw [lastSplit?, lastSplit?, Option.map_or, ih]

theorem lastSplit?_eq_none_iff (test : List α → List α → Option β) (as : List α) :
    lastSplit? test as = none
      ↔ ∀ before after, as = before ++ after → test before after = none := by
  induction as generalizing test with
  | nil =>
    constructor
    · intro h before after hsplit
      obtain ⟨rfl, rfl⟩ := List.nil_eq_append_iff.mp hsplit
      exact h
    · intro h
      exact h [] [] rfl
  | cons a rest ih =>
    rw [lastSplit?, Option.or_eq_none_iff, ih]
    constructor
    · rintro ⟨hlater, hhere⟩ before after hsplit
      cases before with
      | nil =>
        obtain rfl : a :: rest = after := hsplit
        exact hhere
      | cons b before =>
        obtain ⟨rfl, rfl⟩ := List.cons.inj hsplit
        exact hlater before after rfl
    · intro h
      exact ⟨fun before after hsplit => h (a :: before) after (by rw [hsplit]; rfl), h [] _ rfl⟩

/-- The search finds what the test finds at one place, if the test finds nothing at any
later place. -/
theorem lastSplit?_eq_some_iff (test : List α → List α → Option β) (as : List α) (b : β) :
    lastSplit? test as = some b
      ↔ ∃ before after, as = before ++ after ∧ test before after = some b
        ∧ ∀ before' after', as = before' ++ after' → before.length < before'.length →
          test before' after' = none := by
  induction as generalizing test with
  | nil =>
    constructor
    · intro h
      refine ⟨[], [], rfl, h, ?_⟩
      intro before' after' hsplit hlonger
      obtain ⟨rfl, -⟩ := List.nil_eq_append_iff.mp hsplit
      exact absurd hlonger (Nat.lt_irrefl _)
    · rintro ⟨before, after, hsplit, htest, -⟩
      obtain ⟨rfl, rfl⟩ := List.nil_eq_append_iff.mp hsplit
      exact htest
  | cons a rest ih =>
    rw [lastSplit?, Option.or_eq_some_iff, ih, lastSplit?_eq_none_iff]
    constructor
    · rintro (⟨before, after, rfl, htest, hlater⟩ | ⟨hlater, hhere⟩)
      · refine ⟨a :: before, after, rfl, htest, ?_⟩
        intro before' after' hsplit hlonger
        cases before' with
        | nil => exact absurd hlonger (Nat.not_lt_zero _)
        | cons b before' =>
          obtain ⟨rfl, hrest⟩ := List.cons.inj hsplit
          exact hlater before' after' hrest (Nat.lt_of_succ_lt_succ hlonger)
      · refine ⟨[], a :: rest, rfl, hhere, ?_⟩
        intro before' after' hsplit hlonger
        cases before' with
        | nil => exact absurd hlonger (Nat.lt_irrefl _)
        | cons b before' =>
          obtain ⟨rfl, hrest⟩ := List.cons.inj hsplit
          exact hlater before' after' hrest
    · rintro ⟨before, after, hsplit, htest, hlater⟩
      cases before with
      | nil =>
        obtain rfl : a :: rest = after := hsplit
        refine Or.inr ⟨?_, htest⟩
        intro before' after' hrest
        exact hlater (a :: before') after' (by rw [hrest]; rfl) (Nat.succ_pos _)
      | cons b before =>
        obtain ⟨rfl, hrest⟩ := List.cons.inj hsplit
        refine Or.inl ⟨before, after, hrest, htest, ?_⟩
        intro before' after' hrest' hlonger
        exact hlater (a :: before') after' (by rw [hrest']; rfl) (Nat.succ_lt_succ hlonger)

/-- Two tests that agree wherever the second finds nothing later find the same. -/
theorem lastSplit?_congr_of_last {test test' : List α → List α → Option β} {as : List α}
    (h : ∀ before after, as = before ++ after →
      (∀ before' after', as = before' ++ after' → before.length < before'.length →
        test' before' after' = none) → test before after = test' before after) :
    lastSplit? test as = lastSplit? test' as := by
  induction as generalizing test test' with
  | nil =>
    refine h [] [] rfl ?_
    intro before' after' hsplit hlonger
    obtain ⟨rfl, -⟩ := List.nil_eq_append_iff.mp hsplit
    exact absurd hlonger (Nat.lt_irrefl _)
  | cons a rest ih =>
    -- one character further on, the tests still agree where nothing is found later
    have hrest : lastSplit? (fun before after => test (a :: before) after) rest
        = lastSplit? (fun before after => test' (a :: before) after) rest := by
      refine ih ?_
      intro before after hsplit hlater
      refine h (a :: before) after (by rw [hsplit]; rfl) ?_
      intro before' after' hsplit' hlonger
      cases before' with
      | nil => exact absurd hlonger (Nat.not_lt_zero _)
      | cons b before' =>
        obtain ⟨rfl, hrest'⟩ := List.cons.inj hsplit'
        exact hlater before' after' hrest' (Nat.lt_of_succ_lt_succ hlonger)
    rw [lastSplit?, lastSplit?, hrest]
    cases hfound : lastSplit? (fun before after => test' (a :: before) after) rest with
    | some b => rfl
    | none =>
      rw [lastSplit?_eq_none_iff] at hfound
      rw [Option.none_or, Option.none_or]
      refine h [] (a :: rest) rfl ?_
      intro before' after' hsplit hlonger
      cases before' with
      | nil => exact absurd hlonger (Nat.lt_irrefl _)
      | cons b before' =>
        obtain ⟨rfl, hrest'⟩ := List.cons.inj hsplit
        exact hfound before' after' hrest'

/-- The test is put to the two parts of the list only. -/
theorem lastSplit?_congr {test test' : List α → List α → Option β} {as : List α}
    (h : ∀ before after, as = before ++ after → test before after = test' before after) :
    lastSplit? test as = lastSplit? test' as :=
  lastSplit?_congr_of_last fun before after hsplit _ => h before after hsplit

/-- If the test finds something at one place at most, the search finds what the test finds
there. -/
theorem lastSplit?_append (test : List α → List α → Option β) (before after : List α)
    (h : ∀ before' after', before ++ after = before' ++ after' → (test before' after').isSome →
      before' = before) : lastSplit? test (before ++ after) = test before after := by
  cases htest : test before after with
  | none =>
    rw [lastSplit?_eq_none_iff]
    intro before' after' hsplit
    refine Option.not_isSome_iff_eq_none.mp fun hsome => ?_
    obtain rfl := h before' after' hsplit hsome
    obtain rfl := List.append_cancel_left hsplit
    rw [htest] at hsome
    cases hsome
  | some b =>
    rw [lastSplit?_eq_some_iff]
    refine ⟨before, after, rfl, htest, ?_⟩
    intro before' after' hsplit hlonger
    refine Option.not_isSome_iff_eq_none.mp fun hsome => ?_
    rw [h before' after' hsplit hsome] at hlonger
    exact absurd hlonger (Nat.lt_irrefl _)

end StageVars

import StageVars.Proofs.Files.Contents
/-!
# StageVars.Proofs.Lookup.Ensuring -- what comes out, whatever is answered

A lookup ensures something if it holds of what comes out for all answers to its questions, as long
as every value that is read has some property. This is found step by step, and needs no files:
it holds when one view gives all answers, and also when the files change meanwhile.

* `ensures_bind`: one lookup after another.
* `Ensures.result`, `Ensures.resultOver`: what comes out from files.
* `Composing.ensures_bind`: the same for lookups that may fail, about what comes out if they do not.
-/

namespace StageVars

variable {α β : Type} {P : Value → Prop} {Q : α → Prop} {R : β → Prop}

namespace Lookup

/-- Whatever is answered, if all values that are read have the first property, what comes out has
the second. -/
def Ensures (P : Value → Prop) (Q : α → Prop) : Lookup α → Prop
  | .done a => Q a
  | .probe _ next => ∀ found, (next found).Ensures P Q
  | .read _ next => ∀ answer : ReadResult, (∀ v, answer = .ok (some v) → P v) →
      (next answer).Ensures P Q

theorem ensures_pure {a : α} (h : Q a) : (pure a : Lookup α).Ensures P Q := h

theorem ensures_of_forall (h : ∀ a, Q a) (x : Lookup α) : x.Ensures P Q := by
  induction x with
  | done a => exact h a
  | probe path next ih => exact ih
  | read path next ih => exact fun answer _ => ih answer

theorem ensures_bind {x : Lookup α} {f : α → Lookup β} (hx : x.Ensures P Q)
    (hf : ∀ a, Q a → (f a).Ensures P R) : (x >>= f).Ensures P R := by
  induction x with
  | done a => exact hf a hx
  | probe path next ih => exact fun found => ih found (hx found)
  | read path next ih => exact fun answer hanswer => ih answer (hx answer hanswer)

namespace Ensures

variable {x : Lookup α}

theorem resultOver {views : Nat → FileView} (h : x.Ensures P Q) (hviews : ∀ n, (views n).Holds P)
    (n : Nat) : Q (x.resultOver views n).1 := by
  induction x generalizing n with
  | done a => exact h
  | probe path next ih => exact ih _ (h _) (n + 1)
  | read path next ih => exact ih _ (h _ (hviews n path)) (n + 1)

theorem result {files : FileView} (h : x.Ensures P Q) (hfiles : files.Holds P) :
    Q (x.result files) := by
  rw [← resultOver_const files 0]
  exact h.resultOver (fun _ => hfiles) 0

end Ensures

end Lookup

namespace Composing

/-- Whatever is answered, if all values that are read have the first property, what comes out has
the second, unless it is a failure. -/
def Ensures (P : Value → Prop) (Q : α → Prop) (x : Composing α) : Prop :=
  x.run.Ensures P fun outcome => ∀ a, outcome = .ok a → Q a

theorem ensures_pure {a : α} (h : Q a) : (pure a : Composing α).Ensures P Q := by
  rintro _ ⟨⟩
  exact h

theorem ensures_throw (e : Failure) : (throw e : Composing α).Ensures P Q := by
  rintro _ ⟨⟩

theorem ensures_read (path : String) :
    Ensures P (fun source => ∀ v ∈ source, P v)
      (ExceptT.mk (Lookup.contentOf path) : Composing (Option Value)) := by
  rintro answer hanswer _ rfl v rfl
  exact hanswer v rfl

theorem ensures_lift {x : Lookup α} (h : x.Ensures P Q) :
    (monadLift x : Composing α).Ensures P Q := by
  refine Lookup.ensures_bind h fun a ha => ?_
  rintro _ ⟨⟩
  exact ha

theorem ensures_bind {x : Composing α} {f : α → Composing β} (hx : x.Ensures P Q)
    (hf : ∀ a, Q a → (f a).Ensures P R) : (x >>= f).Ensures P R := by
  refine Lookup.ensures_bind hx fun outcome houtcome => ?_
  cases outcome with
  | ok a => exact hf a (houtcome a rfl)
  | error e => exact ensures_throw e

end Composing

end StageVars

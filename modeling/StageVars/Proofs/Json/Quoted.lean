import StageVars.Json.Decode
import StageVars.Json.Text
/-!
# StageVars.Proofs.Json.Quoted -- quoted texts are read as they were written

Every character is written in one of three ways: as itself, with one letter behind a backslash,
or with four hexadecimal digits. Each of these is read as that character, and so a quoted text
is read as the characters that it was written for.

* `quoted?_escaped`: one character.
* `quoted?_writeQuoted`: a text up to its closing quote.
-/

namespace StageVars

namespace Json

/-- A character that stands for itself. -/
theorem quoted?_plain {c : Char} (hcontrol : ¬ c.toNat < 0x20) (hquote : c ≠ '"')
    (hbackslash : c ≠ '\\') (rest : List Char) :
    quoted? (c :: rest) = (quoted? rest).map fun (cs, rest) => (c :: cs, rest) := by
  rw [quoted?]
  · rw [if_neg (by simp [hcontrol, hbackslash])]
    cases quoted? rest <;> rfl
  · exact hquote
  · intro _ _ _ _ _ h _
    exact hbackslash h
  · intro _ _ h _
    exact hbackslash h

/-- A character behind a backslash. -/
theorem quoted?_short {e c : Char} (h : shortEscape? e = some c) (hu : e ≠ 'u')
    (rest : List Char) :
    quoted? ('\\' :: e :: rest) = (quoted? rest).map fun (cs, rest) => (c :: cs, rest) := by
  rw [quoted?]
  · rw [h]
    cases quoted? rest <;> rfl
  · intro _ _ _ _ _ he _
    exact hu he

/-- A code unit that is a character of its own. -/
theorem quoted?_unit {a b c d : Char} {k : Nat} (h : codeUnit? a b c d = some k)
    (hk : k < 0xD800) (rest : List Char) :
    quoted? ('\\' :: 'u' :: a :: b :: c :: d :: rest)
      = (quoted? rest).map fun (cs, rest) => (Char.ofNat k :: cs, rest) := by
  have hlow : isLowSurrogate k = false := by
    rw [isLowSurrogate, decide_eq_false (by omega)]
    rfl
  have hhigh : isHighSurrogate k = false := by
    rw [isHighSurrogate, decide_eq_false (by omega)]
    rfl
  rw [quoted?, h]
  show (if isLowSurrogate k = true then none else if isHighSurrogate k = true then _ else _) = _
  rw [if_neg (by simp [hlow]), if_neg (by simp [hhigh])]
  cases quoted? rest <;> rfl

theorem codeUnit?_control :
    ∀ k < 0x20, codeUnit? '0' '0' (hexDigit (k / 16)) (hexDigit (k % 16)) = some k := by
  decide

/-- A character is read as it was written. -/
theorem quoted?_escaped (c : Char) (rest : List Char) :
    quoted? (escaped c ++ rest) = (quoted? rest).map fun (cs, rest) => (c :: cs, rest) := by
  unfold escaped
  split
  iterate 7 next => exact quoted?_short (by rfl) (by decide) rest
  next hquote hbackslash _ _ _ _ _ =>
    -- neither a quote nor a backslash
    split
    next hcontrol =>
      have hunit := quoted?_unit (codeUnit?_control c.toNat hcontrol) (by omega) rest
      rwa [Char.ofNat_toNat] at hunit
    next hcontrol => exact quoted?_plain hcontrol hquote hbackslash rest

/-- A quoted text is read as it was written, whatever follows. -/
theorem quoted?_writeQuoted (cs after : List Char) :
    quoted? (writeQuoted cs after) = some (cs, after) := by
  induction cs with
  | nil => rw [writeQuoted, quoted?]
  | cons c rest ih => rw [writeQuoted, quoted?_escaped, ih, Option.map_some]

end Json

end StageVars

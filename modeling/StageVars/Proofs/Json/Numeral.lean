import StageVars.Json.Numeral
import StageVars.Json.Text
import StageVars.Proofs.Number.Shortest
/-!
# StageVars.Proofs.Json.Numeral -- numerals and what they denote

A numeral has an exact magnitude. It denotes an integer if it has neither fraction nor exponent,
and otherwise the floating-point number that its magnitude rounds to. What is written for a
number is a numeral that denotes it.

* `numeral?_text`: a numeral is read as it was written.
* `exists_numeral_integer`, `exists_numeral_float`: the numeral that is written for a number.
-/

namespace StageVars

namespace Digits

theorem decimal_eq (cs : List Char) : decimal cs = Nat.ofDigitChars 10 cs 0 := rfl

theorem decimal_append (cs ds : List Char) :
    decimal (cs ++ ds) = 10 ^ ds.length * decimal cs + decimal ds := by
  rw [decimal_eq, Nat.ofDigitChars_append, Nat.ofDigitChars_eq_ofDigitChars_zero]
  rfl

theorem decimal_replicate_zero (n : ℕ) : decimal (List.replicate n '0') = 0 := by
  rw [decimal_eq, Nat.ofDigitChars_replicate_zero, Nat.mul_zero]

theorem decimal_toDigits (n : ℕ) : decimal (Nat.toDigits 10 n) = n := Nat.ofDigitChars_ten_toDigits

theorem isDigit_of_mem_toDigits {n : ℕ} {c : Char} (h : c ∈ Nat.toDigits 10 n) : c.isDigit :=
  Nat.isDigit_of_mem_toDigits (by norm_num) le_rfl h

theorem decimal_cons (c : Char) (cs : List Char) :
    decimal (c :: cs) = 10 ^ cs.length * (c.toNat - '0'.toNat) + decimal cs := by
  rw [decimal_eq, Nat.ofDigitChars_cons, Nat.ofDigitChars_eq_ofDigitChars_zero, Nat.mul_zero,
    Nat.zero_add]
  rfl

theorem decimal_lt {cs : List Char} (h : ∀ c ∈ cs, c.isDigit) : decimal cs < 10 ^ cs.length := by
  induction cs with
  | nil => exact Nat.one_pos
  | cons c rest ih =>
    obtain ⟨hc, hrest⟩ := List.forall_mem_cons.mp h
    have hdigit : c.toNat - '0'.toNat ≤ 9 := by
      have hle : c.toNat ≤ 57 := (Char.isDigit_iff_toNat.mp hc).2
      have hzero : '0'.toNat = 48 := rfl
      omega
    have hscaled := Nat.mul_le_mul_left (10 ^ rest.length) hdigit
    have hbelow := ih hrest
    rw [decimal_cons, List.length_cons, pow_succ]
    omega

/-- The digits of a natural begin with a zero only if the natural is zero. -/
theorem eq_zero_of_head?_toDigits {n : ℕ} (h : (Nat.toDigits 10 n).head? = some '0') : n = 0 := by
  obtain ⟨rest, hrest⟩ := List.head?_eq_some_iff.mp h
  have hdigits : ∀ c ∈ rest, c.isDigit := fun c hc =>
    isDigit_of_mem_toDigits (n := n) (hrest ▸ List.mem_cons_of_mem _ hc)
  have hn : n = decimal rest := by
    rw [← decimal_toDigits n, hrest, decimal_cons]
    simp
  by_contra hpos
  -- one digit fewer would do
  have hlength := Decimal.ten_pow_decimalLength_le (Nat.pos_of_ne_zero hpos)
  have hlt := decimal_lt hdigits
  rw [Binary64.decimalLength, hrest, List.length_cons, Nat.add_sub_cancel] at hlength
  omega

end Digits

namespace Json

/-- A text of at least one digit. -/
def IsDigits (ds : List Char) : Prop := ds ≠ [] ∧ ∀ c ∈ ds, c.isDigit

/-- Digits before a point: no zero stands before another digit. -/
def IsWhole (ds : List Char) : Prop := IsDigits ds ∧ (ds.head? = some '0' → ds = ['0'])

theorem isDigits_toDigits (n : ℕ) : IsDigits (Nat.toDigits 10 n) :=
  ⟨Nat.toDigits_ne_nil, fun _ => Digits.isDigit_of_mem_toDigits⟩

theorem isWhole_toDigits (n : ℕ) : IsWhole (Nat.toDigits 10 n) := by
  refine ⟨isDigits_toDigits n, fun h => ?_⟩
  rw [Digits.eq_zero_of_head?_toDigits h]
  rfl

/-- What follows digits does not go on with one. -/
def EndsDigits (rest : List Char) : Prop := ∀ c ∈ rest.head?, c.isDigit = false

theorem digits?_append {ds rest : List Char} (hds : IsDigits ds) (hrest : EndsDigits rest) :
    digits? (ds ++ rest) = some (ds, rest) := by
  have hstop : rest.takeWhile Char.isDigit = [] ∧ rest.dropWhile Char.isDigit = rest := by
    cases rest with
    | nil => exact ⟨rfl, rfl⟩
    | cons c cs =>
      have hc : c.isDigit = false := hrest c rfl
      simp [hc]
  have htake : (ds ++ rest).takeWhile Char.isDigit = ds := by
    rw [List.takeWhile_append_of_pos hds.2, hstop.1, List.append_nil]
  have hdrop : (ds ++ rest).dropWhile Char.isDigit = rest := by
    rw [List.dropWhile_append_of_pos hds.2, hstop.2]
  obtain ⟨c, cs, rfl⟩ := List.exists_cons_of_ne_nil hds.1
  rw [digits?, htake, hdrop]

theorem whole?_append {ds rest : List Char} (hds : IsWhole ds) (hrest : EndsDigits rest) :
    whole? (ds ++ rest) = some (ds, rest) := by
  rw [whole?, digits?_append hds.1 hrest]
  split
  next h =>
    cases h
    cases hds.2 rfl
  next => rfl

namespace Numeral

/-- The power of ten that is written behind a numeral. -/
def power (n : Numeral) : ℤ :=
  match n.exponent with
  | none => 0
  | some (false, ds) => Digits.decimal ds
  | some (true, ds) => -Digits.decimal ds

/-- The magnitude of a numeral, exactly. -/
def magnitude (n : Numeral) : ℚ :=
  Digits.decimal (n.whole ++ n.fraction.getD []) * 10 ^ (n.power - (n.fraction.getD []).length)

/-- The text of a fraction. -/
def fractionText : Option (List Char) → List Char
  | none => []
  | some ds => '.' :: ds

/-- The text of an exponent. -/
def exponentText : Option (Bool × List Char) → List Char
  | none => []
  | some (negative, ds) => 'e' :: (if negative then '-' else '+') :: ds

/-- The text of a numeral. -/
def text (n : Numeral) : List Char :=
  (if n.negative then ['-'] else [])
    ++ (n.whole ++ (fractionText n.fraction ++ exponentText n.exponent))

/-- A numeral that has digits wherever it has to have some. -/
structure WellFormed (n : Numeral) : Prop where
  whole : IsWhole n.whole
  fraction : ∀ ds ∈ n.fraction, IsDigits ds
  exponent : ∀ e ∈ n.exponent, IsDigits e.2

/-- What follows a numeral does not go on with it. -/
def Ends (rest : List Char) : Prop :=
  ∀ c ∈ rest.head?, c.isDigit = false ∧ c ≠ '.' ∧ c ≠ 'e' ∧ c ≠ 'E'

theorem Ends.endsDigits {rest : List Char} (h : Ends rest) : EndsDigits rest :=
  fun c hc => (h c hc).1

theorem ends_nil : Ends [] := nofun

theorem ends_cons {c : Char} (h : c.isDigit = false ∧ c ≠ '.' ∧ c ≠ 'e' ∧ c ≠ 'E')
    (rest : List Char) : Ends (c :: rest) := by
  intro d hd
  cases hd
  exact h

theorem fraction?_append {fraction : Option (List Char)} (h : ∀ ds ∈ fraction, IsDigits ds)
    {rest : List Char} (hrest : EndsDigits rest) (hpoint : rest.head? ≠ some '.') :
    fraction? (fractionText fraction ++ rest) = some (fraction, rest) := by
  cases fraction with
  | none =>
    show fraction? rest = _
    rw [fraction?]
    rintro cs rfl
    exact hpoint rfl
  | some ds =>
    show (digits? (ds ++ rest)).map _ = _
    rw [digits?_append (h ds rfl) hrest]
    rfl

theorem exponent?_append {exponent : Option (Bool × List Char)}
    (h : ∀ e ∈ exponent, IsDigits e.2) {rest : List Char} (hrest : Ends rest) :
    exponent? (exponentText exponent ++ rest) = some (exponent, rest) := by
  match exponent with
  | none =>
    show exponent? rest = _
    cases rest with
    | nil => rfl
    | cons c cs =>
      obtain ⟨-, -, he, hE⟩ := hrest c rfl
      show (if c = 'e' ∨ c = 'E' then _ else _) = _
      rw [if_neg (by simp [he, hE])]
  | some (negative, ds) =>
    have hdigits := digits?_append (h _ rfl) hrest.endsDigits
    cases negative with
    | true =>
      show (digits? (ds ++ rest)).map _ = _
      rw [hdigits]
      rfl
    | false =>
      show (digits? (ds ++ rest)).map _ = _
      rw [hdigits]
      rfl

theorem endsDigits_exponentText (exponent : Option (Bool × List Char)) {rest : List Char}
    (hrest : Ends rest) :
    EndsDigits (exponentText exponent ++ rest)
      ∧ (exponentText exponent ++ rest).head? ≠ some '.' := by
  match exponent with
  | none => exact ⟨hrest.endsDigits, fun h => (hrest _ h).2.1 rfl⟩
  | some (negative, ds) =>
    refine ⟨?_, nofun⟩
    intro c hc
    cases hc
    rfl

theorem endsDigits_fractionText (fraction : Option (List Char)) {rest : List Char}
    (hrest : EndsDigits rest) : EndsDigits (fractionText fraction ++ rest) := by
  cases fraction with
  | none => exact hrest
  | some ds =>
    intro c hc
    cases hc
    rfl

/-- **A numeral is read as it was written**, whatever follows, if that does not go on with it. -/
theorem numeral?_text {n : Numeral} (h : n.WellFormed) {rest : List Char} (hrest : Ends rest) :
    numeral? (n.text ++ rest) = some (n, rest) := by
  obtain ⟨negative, whole, fraction, exponent⟩ := n
  obtain ⟨hwhole, hfraction, hexponent⟩ := h
  obtain ⟨hdigits, hpoint⟩ := endsDigits_exponentText exponent hrest
  have hunsigned : unsignedNumeral? negative
      (whole ++ (fractionText fraction ++ (exponentText exponent ++ rest)))
        = some (⟨negative, whole, fraction, exponent⟩, rest) := by
    simp only [unsignedNumeral?, whole?_append hwhole (endsDigits_fractionText fraction hdigits),
      fraction?_append hfraction hdigits hpoint, exponent?_append hexponent hrest,
      Option.bind_eq_bind, Option.bind_some, Option.pure_def]
  cases negative with
  | true =>
    have htext : text ⟨true, whole, fraction, exponent⟩ ++ rest
        = '-' :: (whole ++ (fractionText fraction ++ (exponentText exponent ++ rest))) := by
      simp [text]
    rw [htext]
    exact hunsigned
  | false =>
    obtain ⟨c, cs, hcons⟩ := List.exists_cons_of_ne_nil hwhole.1.1
    simp only at hcons
    subst hcons
    have hc : c ≠ '-' := by
      rintro rfl
      cases hwhole.1.2 '-' List.mem_cons_self
    show numeral? (c :: (cs ++ (fractionText fraction ++ exponentText exponent) ++ rest)) = _
    rw [numeral?]
    · simpa using hunsigned
    · rintro cs' h
      exact hc (List.cons.inj h).1

/-- What a numeral denotes: an integer as it is, another number as the one nearest to it. -/
def Denotes (n : Numeral) : Number → Prop
  | .integer i =>
    n.fraction = none ∧ n.exponent = none
      ∧ i = if n.negative then -(Digits.decimal n.whole : ℤ) else Digits.decimal n.whole
  | .float x =>
    (n.fraction.isSome ∨ n.exponent.isSome) ∧ x.negative = n.negative
      ∧ x.RoundsTo n.magnitude

end Numeral

/-! ## Written numbers -/

open Numeral

/-- The numeral that is written for an integer. -/
def Numeral.ofInt (i : ℤ) : Numeral := ⟨decide (i < 0), Nat.toDigits 10 i.natAbs, none, none⟩

theorem wellFormed_ofInt (i : ℤ) : (ofInt i).WellFormed := ⟨isWhole_toDigits _, nofun, nofun⟩

theorem writeNumber_integer (i : ℤ) (after : List Char) :
    writeNumber (.integer i) after = (ofInt i).text ++ after := by
  rw [writeNumber]
  split
  next h => simp [ofInt, text, fractionText, exponentText, h]
  next h => simp [ofInt, text, fractionText, exponentText, h]

/-- What is written for an integer is a numeral that denotes it. -/
theorem exists_numeral_integer (i : ℤ) :
    ∃ n : Numeral, n.WellFormed ∧ n.Denotes (.integer i)
      ∧ ∀ after, writeNumber (.integer i) after = n.text ++ after := by
  refine ⟨ofInt i, wellFormed_ofInt i, ⟨rfl, rfl, ?_⟩, writeNumber_integer i⟩
  rw [ofInt, Digits.decimal_toDigits]
  simp only [decide_eq_true_eq]
  split <;> omega

theorem isDigit_of_mem_replicate_zero {n : ℕ} {c : Char} (h : c ∈ List.replicate n '0') :
    c.isDigit := by
  rw [List.eq_of_mem_replicate h]
  rfl

/-- A point before the digits, and zeros between. -/
theorem plain_of_neg {n k : ℕ} :
    ∃ fraction, FloatLayout.plain (Nat.toDigits 10 n) (-(k + 1 : ℕ)) = ['0'] ++ '.' :: fraction
      ∧ IsDigits fraction
      ∧ (Digits.decimal (['0'] ++ fraction) : ℚ) * 10 ^ (-(fraction.length : ℤ))
        = Decimal.magnitude ⟨n, -(k + 1 : ℕ)⟩ := by
  refine ⟨List.replicate k '0' ++ Nat.toDigits 10 n, ?_, ⟨?_, ?_⟩, ?_⟩
  · rw [FloatLayout.plain, if_pos (by omega)]
    have hzeros : (-(-((k + 1 : ℕ) : ℤ)) - 1).toNat = k := by omega
    rw [hzeros]
    rfl
  · exact List.append_ne_nil_of_right_ne_nil _ Nat.toDigits_ne_nil
  · intro c hc
    rcases List.mem_append.mp hc with hzero | hdigit
    · exact isDigit_of_mem_replicate_zero hzero
    · exact Digits.isDigit_of_mem_toDigits hdigit
  · have hvalue : Digits.decimal (['0'] ++ (List.replicate k '0' ++ Nat.toDigits 10 n)) = n := by
      rw [← List.append_assoc, Digits.decimal_append, Digits.decimal_toDigits]
      have hzero : ['0'] ++ List.replicate k '0' = List.replicate (k + 1) '0' := rfl
      rw [hzero, Digits.decimal_replicate_zero, Nat.mul_zero, Nat.zero_add]
    rw [hvalue, Decimal.magnitude, List.length_append, List.length_replicate,
      Binary64.decimalLength]
    congr 2
    push_cast
    ring

/-- Digits with zeros behind them are a whole part, unless they write zero. -/
theorem isWhole_padded {n zeros : ℕ} (h : n = 0 → zeros = 0) :
    IsWhole (Nat.toDigits 10 n ++ List.replicate zeros '0') := by
  refine ⟨⟨List.append_ne_nil_of_left_ne_nil Nat.toDigits_ne_nil _, ?_⟩, ?_⟩
  · intro c hc
    rcases List.mem_append.mp hc with hdigit | hzero
    · exact Digits.isDigit_of_mem_toDigits hdigit
    · exact isDigit_of_mem_replicate_zero hzero
  · intro hhead
    rw [List.head?_append_of_ne_nil _ Nat.toDigits_ne_nil] at hhead
    obtain rfl := Digits.eq_zero_of_head?_toDigits hhead
    rw [h rfl]
    rfl

/-- A point behind the digits, and zeros between. -/
theorem plain_of_length_le {n before : ℕ} (hn : n = 0 → before = 1)
    (hlength : (Nat.toDigits 10 n).length ≤ before) :
    ∃ whole, FloatLayout.plain (Nat.toDigits 10 n) (before - 1 : ℤ) = whole ++ '.' :: ['0']
      ∧ IsWhole whole
      ∧ (Digits.decimal (whole ++ ['0']) : ℚ) * 10 ^ (-1 : ℤ)
        = Decimal.magnitude ⟨n, before - 1⟩ := by
  have hpos : 0 < (Nat.toDigits 10 n).length := Nat.length_toDigits_pos
  have hpadded : (Nat.toDigits 10 n
      ++ List.replicate (before - (Nat.toDigits 10 n).length) '0').length = before := by
    rw [List.length_append, List.length_replicate]
    omega
  refine ⟨Nat.toDigits 10 n ++ List.replicate (before - (Nat.toDigits 10 n).length) '0',
    ?_, ?_, ?_⟩
  · rw [FloatLayout.plain, if_neg (by omega)]
    have hbefore : ((before : ℤ) - 1).toNat + 1 = before := by omega
    simp only [hbefore]
    rw [List.take_of_length_le hpadded.le, List.drop_of_length_le hpadded.le]
    rfl
  · refine isWhole_padded fun h => ?_
    rw [hn h, h]
    rfl
  · rw [Digits.decimal_append, Digits.decimal_append, Digits.decimal_toDigits,
      Digits.decimal_replicate_zero, List.length_replicate, Decimal.magnitude,
      Binary64.decimalLength]
    have hexponent : ((before : ℤ) - 1 + 1 - ((Nat.toDigits 10 n).length : ℕ))
        = ((before - (Nat.toDigits 10 n).length : ℕ) : ℤ) := by omega
    have hzero : Digits.decimal ['0'] = 0 := rfl
    rw [hexponent, hzero, zpow_natCast]
    push_cast
    simp
    ring

/-- A point among the digits. -/
theorem plain_of_lt_length {n before : ℕ} (hbefore : 0 < before)
    (hlength : before < (Nat.toDigits 10 n).length) :
    ∃ whole fraction,
      FloatLayout.plain (Nat.toDigits 10 n) (before - 1 : ℤ) = whole ++ '.' :: fraction
      ∧ IsWhole whole ∧ IsDigits fraction
      ∧ (Digits.decimal (whole ++ fraction) : ℚ) * 10 ^ (-(fraction.length : ℤ))
        = Decimal.magnitude ⟨n, before - 1⟩ := by
  have hdrop : (Nat.toDigits 10 n).drop before ≠ [] := by
    intro h
    exact hlength.not_ge (List.drop_eq_nil_iff.mp h)
  refine ⟨(Nat.toDigits 10 n).take before, (Nat.toDigits 10 n).drop before, ?_, ⟨⟨?_, ?_⟩, ?_⟩,
    ⟨hdrop, ?_⟩, ?_⟩
  · rw [FloatLayout.plain, if_neg (by omega)]
    have hbefore : ((before : ℤ) - 1).toNat + 1 = before := by omega
    have hnone : before - (Nat.toDigits 10 n).length = 0 := by omega
    simp only [hbefore, hnone, List.replicate_zero, List.append_nil]
    rw [if_neg (by simpa using hdrop)]
  · rw [Ne, List.take_eq_nil_iff, not_or]
    exact ⟨hbefore.ne', Nat.toDigits_ne_nil⟩
  · intro c hc
    exact Digits.isDigit_of_mem_toDigits (List.mem_of_mem_take hc)
  · intro hhead
    rw [List.head?_take, if_neg hbefore.ne'] at hhead
    -- zero has one digit only
    rw [Digits.eq_zero_of_head?_toDigits hhead] at hlength
    have hone : (Nat.toDigits 10 0).length = 1 := rfl
    omega
  · intro c hc
    exact Digits.isDigit_of_mem_toDigits (List.mem_of_mem_drop hc)
  · rw [List.take_append_drop, Digits.decimal_toDigits, List.length_drop, Decimal.magnitude,
      Binary64.decimalLength]
    congr 2
    dsimp only
    omega

/-- Without an exponent: the digits of a decimal around a point. -/
theorem exists_plain {d : Decimal} (hd : d.digits = 0 → d.exponent = 0) :
    ∃ whole fraction, FloatLayout.plain (Nat.toDigits 10 d.digits) d.exponent
        = whole ++ '.' :: fraction
      ∧ IsWhole whole ∧ IsDigits fraction
      ∧ (Digits.decimal (whole ++ fraction) : ℚ) * 10 ^ (-(fraction.length : ℤ)) = d.magnitude := by
  obtain ⟨n, e⟩ := d
  simp only at hd
  rcases lt_or_ge e 0 with hneg | hnonneg
  · obtain ⟨k, rfl⟩ : ∃ k : ℕ, e = -(k + 1 : ℕ) := ⟨(-e - 1).toNat, by omega⟩
    obtain ⟨fraction, htext, hdigits, hvalue⟩ := plain_of_neg (n := n) (k := k)
    exact ⟨['0'], fraction, htext, isWhole_toDigits 0, hdigits, hvalue⟩
  · obtain ⟨before, rfl⟩ : ∃ before : ℕ, e = before - 1 := ⟨e.toNat + 1, by omega⟩
    rcases le_or_gt (Nat.toDigits 10 n).length before with hle | hlt
    · have hone : n = 0 → before = 1 := fun h => by have := hd h; omega
      obtain ⟨whole, htext, hwhole, hvalue⟩ := plain_of_length_le hone hle
      exact ⟨whole, ['0'], htext, hwhole, isDigits_toDigits 0, hvalue⟩
    · exact plain_of_lt_length (by omega) hlt

/-- With an exponent: a point behind the first digit if there are more. -/
theorem exists_scientific {d : Decimal} (hd : d.digits ≠ 0) :
    ∃ whole fraction, floatLayout.scientific (Nat.toDigits 10 d.digits) d.exponent
        = whole ++ (fractionText fraction
          ++ exponentText (some (decide (d.exponent < 0), Nat.toDigits 10 d.exponent.natAbs)))
      ∧ IsWhole whole ∧ (∀ ds ∈ fraction, IsDigits ds)
      ∧ (Digits.decimal (whole ++ fraction.getD []) : ℚ)
          * 10 ^ (d.exponent - (fraction.getD []).length) = d.magnitude := by
  obtain ⟨c, cs, hdigits⟩ : ∃ c cs, Nat.toDigits 10 d.digits = c :: cs :=
    List.exists_cons_of_ne_nil Nat.toDigits_ne_nil
  have hall : ∀ c' ∈ c :: cs, c'.isDigit := fun c' hc' =>
    Digits.isDigit_of_mem_toDigits (hdigits ▸ hc')
  have hwhole : IsWhole [c] := by
    refine ⟨⟨List.cons_ne_nil _ _, by simpa using (List.forall_mem_cons.mp hall).1⟩, ?_⟩
    intro hzero
    cases hzero
    exact absurd (Digits.eq_zero_of_head?_toDigits (by rw [hdigits]; rfl)) hd
  have hvalue : (Digits.decimal (c :: cs) : ℚ) * 10 ^ (d.exponent - cs.length) = d.magnitude := by
    rw [← hdigits, Digits.decimal_toDigits, Decimal.magnitude, Binary64.decimalLength, hdigits,
      List.length_cons]
    congr 2
    push_cast
    ring
  have hsign : ('e' :: ((if d.exponent < 0 then ['-'] else floatLayout.plus.toList)
        ++ Nat.toDigits 10 d.exponent.natAbs))
      = exponentText (some (decide (d.exponent < 0), Nat.toDigits 10 d.exponent.natAbs)) := by
    by_cases h : d.exponent < 0 <;> simp [exponentText, h, floatLayout]
  rw [hdigits]
  cases cs with
  | nil => exact ⟨[c], none, by rw [← hsign]; rfl, hwhole, by simp, hvalue⟩
  | cons c' cs =>
    refine ⟨[c], some (c' :: cs), by rw [← hsign]; rfl, hwhole, ?_, hvalue⟩
    intro ds hds
    cases hds
    exact ⟨List.cons_ne_nil _ _, (List.forall_mem_cons.mp hall).2⟩

/-- A sign stands before the digits. -/
theorem writeNumber_float (x : Binary64) (after : List Char) :
    writeNumber (.float x) after
      = (if x.negative then ['-'] else [])
        ++ ((if floatLayout.minPlain ≤ (Decimal.shortest x).exponent
              ∧ (Decimal.shortest x).exponent ≤ floatLayout.maxPlain then
            FloatLayout.plain (Nat.toDigits 10 (Decimal.shortest x).digits)
              (Decimal.shortest x).exponent
          else floatLayout.scientific (Nat.toDigits 10 (Decimal.shortest x).digits)
            (Decimal.shortest x).exponent) ++ after) := by
  rw [writeNumber, FloatLayout.write, String.toList_ofList]
  cases x.negative <;> rfl

/-- What is written for a floating-point number is a numeral that denotes it. -/
theorem exists_numeral_float {x : Binary64} (hx : x.IsFinite) :
    ∃ n : Numeral, n.WellFormed ∧ n.Denotes (.float x)
      ∧ ∀ after, writeNumber (.float x) after = n.text ++ after := by
  obtain ⟨hzero, hrounds⟩ := Decimal.roundsTo_shortest hx
  simp only [writeNumber_float]
  generalize Decimal.shortest x = d at *
  by_cases hrange : floatLayout.minPlain ≤ d.exponent ∧ d.exponent ≤ floatLayout.maxPlain
  · obtain ⟨whole, fraction, htext, hwhole, hfraction, hvalue⟩ := exists_plain hzero
    refine ⟨⟨x.negative, whole, some fraction, none⟩, ⟨hwhole, ?_, nofun⟩,
      ⟨Or.inl rfl, rfl, ?_⟩, ?_⟩
    · intro ds hds
      cases hds
      exact hfraction
    · have hmagnitude : magnitude ⟨x.negative, whole, some fraction, none⟩ = d.magnitude := by
        rw [← hvalue, magnitude, power, zero_sub]
        rfl
      rwa [hmagnitude]
    · intro after
      rw [if_pos hrange, htext]
      simp [text, fractionText, exponentText]
  · have hd : d.digits ≠ 0 := fun h => hrange (by rw [hzero h]; decide)
    obtain ⟨whole, fraction, htext, hwhole, hfraction, hvalue⟩ := exists_scientific hd
    refine ⟨⟨x.negative, whole, fraction,
      some (decide (d.exponent < 0), Nat.toDigits 10 d.exponent.natAbs)⟩,
      ⟨hwhole, hfraction, ?_⟩, ⟨Or.inr rfl, rfl, ?_⟩, ?_⟩
    · intro e he
      cases he
      exact isDigits_toDigits _
    · have hpower : power ⟨x.negative, whole, fraction,
          some (decide (d.exponent < 0), Nat.toDigits 10 d.exponent.natAbs)⟩ = d.exponent := by
        by_cases h : d.exponent < 0
        · simp only [power, h, decide_true, Digits.decimal_toDigits]
          omega
        · simp only [power, h, decide_false, Digits.decimal_toDigits]
          omega
      rwa [magnitude, hpower, hvalue]
    · intro after
      rw [if_neg hrange, htext]
      simp [text]

end Json

end StageVars

import Mathlib.Data.List.DropRight
import StageVars.Proofs.Json.Pretty
import StageVars.Proofs.Value.Storable
/-!
# StageVars.Proofs.Json.Reading -- a pretty text is read as the tree that it was written for

The reader takes blanks, a tree and leaves what follows. It is given fuel for every character
twice, which is enough since a container spends two units on each item and has more than one
character for it. So a storable tree is read back from its pretty text, at any level, whatever
follows, if that does not go on with a numeral.

* `value?_array`, `items?_last`, `items?_more` and their likes: one step of the reader.
* `value?_writePretty`: a tree among others.
* `decode?_pretty`: a whole text.
-/

namespace StageVars

namespace Json

/-! ## Blanks -/

theorem skipBlanks_newLine (level : Nat) (cs : List Char) :
    skipBlanks (newLine level cs) = skipBlanks cs := by
  rw [newLine_eq, skipBlanks, List.dropWhile_append_of_pos (blanks_newLine level), skipBlanks]

theorem skipBlanks_space (cs : List Char) : skipBlanks (' ' :: cs) = skipBlanks cs :=
  List.dropWhile_cons_of_pos rfl

theorem skipBlanks_skipBlanks (cs : List Char) : skipBlanks (skipBlanks cs) = skipBlanks cs :=
  List.dropWhile_idempotent isBlank cs

theorem skipBlanks_cons {c : Char} (h : isBlank c = false) (cs : List Char) :
    skipBlanks (c :: cs) = c :: cs :=
  List.dropWhile_cons_of_neg (by simp [h])

theorem isBlank_eq_false_of_isOpening {c : Char} (h : isOpening c) : isBlank c = false := by
  by_contra hblank
  rw [Bool.not_eq_false, isBlank] at hblank
  simp only [Bool.or_eq_true, beq_iff_eq] at hblank
  rcases hblank with ((rfl | rfl) | rfl) | rfl <;> revert h <;> decide

/-! ## The equations of the reader -/

theorem value?_quote (fuel depth : Nat) (cs : List Char) :
    value? (fuel + 1) depth ('"' :: cs) = do
      let (s, rest) ← quoted? cs
      return (.string (String.ofList s), rest) := rfl

theorem value?_bracket (fuel depth : Nat) (cs : List Char) :
    value? (fuel + 1) (depth + 1) ('[' :: cs) = match skipBlanks cs with
      | ']' :: rest => some (.array [], rest)
      | rest => do
        let (items, rest) ← items? fuel depth rest
        return (.array items, rest) := rfl

theorem value?_brace (fuel depth : Nat) (cs : List Char) :
    value? (fuel + 1) (depth + 1) ('\x7b' :: cs) = match skipBlanks cs with
      | '\x7d' :: rest => some (.object [], rest)
      | rest => do
        let (entries, rest) ← entries? fuel depth rest
        return (.object (Fields.ofEntries entries), rest) := rfl

theorem items?_succ (fuel depth : Nat) (cs : List Char) :
    items? (fuel + 1) depth cs = (do
      let (v, rest) ← value? fuel depth cs
      match skipBlanks rest with
      | ',' :: rest => do
        let (vs, rest) ← items? fuel depth rest
        return (v :: vs, rest)
      | ']' :: rest => some ([v], rest)
      | _ => none) := rfl

theorem entries?_succ (fuel depth : Nat) (cs : List Char) :
    entries? (fuel + 1) depth cs = (do
      let (k, rest) ← key? cs
      let (v, rest) ← value? fuel depth rest
      match skipBlanks rest with
      | ',' :: rest => do
        let (entries, rest) ← entries? fuel depth rest
        return ((k, v) :: entries, rest)
      | '\x7d' :: rest => some ([(k, v)], rest)
      | _ => none) := rfl

section Blanks

variable {cs cs' : List Char} (h : skipBlanks cs = skipBlanks cs') (fuel depth : Nat)
include h

/-- The reader does not see blanks before a tree. -/
theorem value?_congr_blanks : value? fuel depth cs = value? fuel depth cs' := by
  cases fuel with
  | zero => rfl
  | succ fuel => rw [value?, value?, h]

theorem items?_congr_blanks : items? fuel depth cs = items? fuel depth cs' := by
  cases fuel with
  | zero => rfl
  | succ fuel => rw [items?_succ, items?_succ, value?_congr_blanks h]

theorem key?_congr_blanks : key? cs = key? cs' := by
  rw [key?, key?, h]

theorem entries?_congr_blanks : entries? fuel depth cs = entries? fuel depth cs' := by
  cases fuel with
  | zero => rfl
  | succ fuel => rw [entries?_succ, entries?_succ, key?_congr_blanks h]

end Blanks

/-! ## One step of the reader -/

section Steps

variable {fuel depth : Nat} {cs rest after : List Char} {v : Value}

theorem value?_of_numeral? {n : Numeral} {x : Number} (h : numeral? cs = some (n, after))
    (hx : n.number? = some x) : value? (fuel + 1) depth cs = some (.number x, after) := by
  cases cs with
  | nil => cases h
  | cons c cs =>
    rw [value?, skipBlanks_cons (isBlank_eq_false_of_isOpening (isOpening_of_numeral? h))]
    split
    -- no numeral begins like another tree
    iterate 6 next heq =>
      rw [heq] at h
      cases h
    next =>
      rw [h]
      simp [hx]

theorem value?_writeString (s : String) :
    value? (fuel + 1) depth (writeString s after) = some (.string s, after) := by
  rw [writeString, value?_quote]
  simp [quoted?_writeQuoted]

theorem value?_emptyArray :
    value? (fuel + 1) (depth + 1) ('[' :: ']' :: after) = some (.array [], after) := rfl

theorem value?_emptyObject :
    value? (fuel + 1) (depth + 1) ('\x7b' :: '\x7d' :: after) = some (.object [], after) := rfl

/-- No tree begins with a closing bracket. -/
theorem items?_of_closed (h : skipBlanks cs = ']' :: rest) : items? fuel depth cs = none := by
  match fuel with
  | 0 => rfl
  | 1 => rfl
  | fuel + 2 =>
    have hv : value? (fuel + 1) depth cs = value? (fuel + 1) depth (']' :: rest) :=
      value?_congr_blanks (h.trans (skipBlanks_cons rfl rest).symm) _ _
    rw [items?_succ, hv]
    rfl

/-- No key begins with a closing brace. -/
theorem entries?_of_closed (h : skipBlanks cs = '\x7d' :: rest) :
    entries? fuel depth cs = none := by
  cases fuel with
  | zero => rfl
  | succ fuel =>
    rw [entries?_succ, key?, h]
    rfl

/-- A bracket is followed by items unless it is closed at once. -/
theorem value?_array {items : List Value} (h : items? fuel depth cs = some (items, after)) :
    value? (fuel + 1) (depth + 1) ('[' :: cs) = some (.array items, after) := by
  rw [value?_bracket]
  split
  next hclosed =>
    rw [items?_of_closed hclosed] at h
    cases h
  next =>
    rw [items?_congr_blanks (skipBlanks_skipBlanks cs), h]
    rfl

/-- A brace is followed by entries unless it is closed at once. -/
theorem value?_object {entries : Fields} (h : entries? fuel depth cs = some (entries, after)) :
    value? (fuel + 1) (depth + 1) ('\x7b' :: cs)
      = some (.object (Fields.ofEntries entries), after) := by
  rw [value?_brace]
  split
  next hclosed =>
    rw [entries?_of_closed hclosed] at h
    cases h
  next =>
    rw [entries?_congr_blanks (skipBlanks_skipBlanks cs), h]
    rfl

theorem items?_last (hv : value? fuel depth cs = some (v, rest))
    (hrest : skipBlanks rest = ']' :: after) : items? (fuel + 1) depth cs = some ([v], after) := by
  rw [items?_succ, hv]
  simp only [Option.bind_eq_bind, Option.bind_some, hrest]

theorem items?_more {more : List Char} {items : List Value}
    (hv : value? fuel depth cs = some (v, rest)) (hrest : skipBlanks rest = ',' :: more)
    (hmore : items? fuel depth more = some (items, after)) :
    items? (fuel + 1) depth cs = some (v :: items, after) := by
  rw [items?_succ, hv]
  simp only [Option.bind_eq_bind, Option.bind_some, hrest, hmore]
  rfl

theorem key?_writeString (k : String) : key? (writeString k (':' :: after)) = some (k, after) := by
  rw [key?, writeString, skipBlanks_cons rfl]
  simp [quoted?_writeQuoted, skipBlanks_cons (c := ':') rfl]

theorem entries?_last {k : String} {behind : List Char} (hkey : key? cs = some (k, behind))
    (hv : value? fuel depth behind = some (v, rest)) (hrest : skipBlanks rest = '\x7d' :: after) :
    entries? (fuel + 1) depth cs = some ([(k, v)], after) := by
  rw [entries?_succ, hkey]
  simp only [Option.bind_eq_bind, Option.bind_some, hv, hrest]

theorem entries?_more {k : String} {behind more : List Char} {entries : Fields}
    (hkey : key? cs = some (k, behind)) (hv : value? fuel depth behind = some (v, rest))
    (hrest : skipBlanks rest = ',' :: more)
    (hmore : entries? fuel depth more = some (entries, after)) :
    entries? (fuel + 1) depth cs = some ((k, v) :: entries, after) := by
  rw [entries?_succ, hkey]
  simp only [Option.bind_eq_bind, Option.bind_some, hv, hrest, hmore]
  rfl

end Steps

/-! ## Integers -/

open Numeral

/-- An integer that 64 bits hold is not read as a floating-point number. -/
theorem number?_ofInt {i : ℤ} (h : (Number.integer i).Fits) :
    (ofInt i).number? = some (.integer i) := by
  obtain ⟨hlow, hhigh⟩ := h
  have hword : maxWord = 2 ^ 64 - 1 := rfl
  have hhalf : Nat.pow 2 63 = 2 ^ 63 := rfl
  rw [number?, ofInt]
  simp only [Digits.decimal_toDigits, decide_eq_true_eq]
  split
  next hneg =>
    rw [if_pos ⟨by omega, by omega⟩, Int.ofNat_natAbs_of_nonpos (by omega), neg_neg]
  next hnonneg =>
    rw [if_pos (by omega), Int.natAbs_of_nonneg (by omega)]

theorem value?_writeNumber {i : ℤ} (h : (Number.integer i).Fits) {fuel depth : Nat}
    {after : List Char} (hafter : Ends after) :
    value? (fuel + 1) depth (writeNumber (.integer i) after)
      = some (.number (.integer i), after) := by
  rw [writeNumber_integer]
  exact value?_of_numeral? (numeral?_text (wellFormed_ofInt i) hafter) (number?_ofInt h)

/-! ## What follows a tree among others -/

theorem ends_newLine (level : Nat) (after : List Char) : Ends (newLine level after) :=
  ends_cons (by decide) _

theorem ends_writePrettyItems (level : Nat) (items : List Value) {after : List Char}
    (h : Ends after) : Ends (writePrettyItems level items after) := by
  cases items with
  | nil => exact h
  | cons v rest => exact ends_cons (by decide) _

theorem ends_writePrettyFields (level : Nat) (fields : Fields) {after : List Char}
    (h : Ends after) : Ends (writePrettyFields level fields after) := by
  cases fields with
  | nil => exact h
  | cons entry rest => exact ends_cons (by decide) _

/-! ## How long a text is -/

theorem length_newLine (level : Nat) (after : List Char) :
    (newLine level after).length = 2 * level + 1 + after.length := by
  simp [newLine]
  omega

theorem length_writeString (s : String) (after : List Char) :
    (writeString s after).length = (writeString s []).length + after.length := by
  rw [writeString_eq, List.length_append]

theorem length_writePretty (level : Nat) (v : Value) (after : List Char) :
    (writePretty level v after).length = (writePretty level v []).length + after.length := by
  rw [writePretty_eq, List.length_append]

theorem length_writePrettyItems (level : Nat) (items : List Value) (after : List Char) :
    (writePrettyItems level items after).length
      = (writePrettyItems level items []).length + after.length := by
  rw [← List.nil_append after, writePrettyItems_append, List.length_append, List.nil_append]

theorem length_writePrettyFields (level : Nat) (fields : Fields) (after : List Char) :
    (writePrettyFields level fields after).length
      = (writePrettyFields level fields []).length + after.length := by
  rw [← List.nil_append after, writePrettyFields_append, List.length_append, List.nil_append]

/-! ## Trees -/

mutual

/-- A tree is read as it was written, whatever follows, if that does not go on with a numeral. -/
theorem value?_writePretty (level : Nat) (v : Value) {fuel depth : Nat} (hv : v.Storable depth)
    (hfuel : 2 * (writePretty level v []).length < fuel) {after : List Char}
    (hafter : Ends after) : value? fuel depth (writePretty level v after) = some (v, after) := by
  obtain ⟨fuel, rfl⟩ := Nat.exists_eq_add_one_of_ne_zero (Nat.ne_zero_of_lt hfuel)
  match v, depth, hv with
  | .null, _, _ | .bool true, _, _ | .bool false, _, _ => rfl
  | .number (.integer i), _, hv =>
    exact value?_writeNumber (of_decide_eq_true hv.integral) hafter
  | .number (.float x), _, hv => cases hv.integral
  | .string s, _, _ => exact value?_writeString s
  | .array _, 0, hv => exact absurd hv (Value.not_storable_zero_array _)
  | .object _, 0, hv => exact absurd hv (Value.not_storable_zero_object _)
  | .array [], depth + 1, _ => exact value?_emptyArray
  | .object [], depth + 1, _ => exact value?_emptyObject
  | .array (item :: items), depth + 1, hv =>
    obtain ⟨hitem, hitems⟩ := List.forall_mem_cons.mp ((Value.storable_array_iff _ _).mp hv)
    simp only [writePretty, List.length_cons, length_newLine,
      length_writePretty _ _ (writePrettyItems _ _ _), length_writePrettyItems _ _ (newLine _ _)]
      at hfuel
    -- one unit was for the bracket, and one is for the first item
    obtain ⟨fuel, rfl⟩ : ∃ more, fuel = more + 1 := ⟨fuel - 1, by omega⟩
    have hends := ends_newLine level (']' :: after)
    have hfuel' : 2 * (writePretty (level + 1) item []).length < fuel := by omega
    have hfirst := value?_writePretty (level + 1) item hitem hfuel'
      (ends_writePrettyItems (level + 1) items hends)
    have hread := items?_writePrettyItems (level + 1) items hitems (by omega)
      (skipBlanks_newLine level _) hends hfirst
    rw [← items?_congr_blanks (skipBlanks_newLine (level + 1) _)] at hread
    exact value?_array hread
  | .object ((k, item) :: fields), depth + 1, hv =>
    obtain ⟨hitem, hfields⟩ := List.forall_mem_cons.mp ((Value.storable_object_iff _ _).mp hv).2
    simp only [writePretty, List.length_cons, length_newLine, length_writeString _ (':' :: _),
      length_writePretty _ _ (writePrettyFields _ _ _), length_writePrettyFields _ _ (newLine _ _)]
      at hfuel
    obtain ⟨fuel, rfl⟩ : ∃ more, fuel = more + 1 := ⟨fuel - 1, by omega⟩
    have hends := ends_newLine level ('\x7d' :: after)
    have hfuel' : 2 * (writePretty (level + 1) item []).length < fuel := by omega
    have hfirst := value?_writePretty (level + 1) item hitem hfuel'
      (ends_writePrettyFields (level + 1) fields hends)
    rw [← value?_congr_blanks (skipBlanks_space _)] at hfirst
    have hread := entries?_writePrettyFields (level + 1) fields hfields (by omega)
      (skipBlanks_newLine level _) hends (key?_writeString k) hfirst
    rw [← entries?_congr_blanks (skipBlanks_newLine (level + 1) _)] at hread
    -- the reader inserts the entries one by one, which puts them back as they were
    have hobject := value?_object hread
    rwa [ofEntries_of_distinctKeys hv.distinct] at hobject
termination_by structural v

/-- Further items are read behind one that was read. -/
theorem items?_writePrettyItems (level : Nat) (items : List Value) {fuel depth : Nat}
    (hitems : ∀ w ∈ items, w.Storable depth)
    (hfuel : 2 * (writePrettyItems level items []).length ≤ fuel) {cs rest after : List Char}
    {v : Value} (hrest : skipBlanks rest = ']' :: after) (hends : Ends rest)
    (hv : value? fuel depth cs = some (v, writePrettyItems level items rest)) :
    items? (fuel + 1) depth cs = some (v :: items, after) := by
  match items with
  | [] => exact items?_last hv hrest
  | w :: more =>
    obtain ⟨hw, hmore⟩ := List.forall_mem_cons.mp hitems
    simp only [writePrettyItems, List.length_cons, length_newLine,
      length_writePretty _ _ (writePrettyItems _ _ _)] at hfuel
    obtain ⟨fuel, rfl⟩ : ∃ less, fuel = less + 1 := ⟨fuel - 1, by omega⟩
    have hfuel' : 2 * (writePretty level w []).length < fuel := by omega
    have hfirst := value?_writePretty level w hw hfuel'
      (ends_writePrettyItems level more hends)
    have hread := items?_writePrettyItems level more hmore (by omega) hrest hends hfirst
    rw [← items?_congr_blanks (skipBlanks_newLine level _)] at hread
    exact items?_more hv (skipBlanks_cons rfl _) hread
termination_by structural items

/-- Further entries are read behind one that was read. -/
theorem entries?_writePrettyFields (level : Nat) (fields : Fields) {fuel depth : Nat}
    (hfields : ∀ entry ∈ fields, entry.2.Storable depth)
    (hfuel : 2 * (writePrettyFields level fields []).length ≤ fuel)
    {cs behind rest after : List Char} {k : String} {v : Value}
    (hrest : skipBlanks rest = '\x7d' :: after) (hends : Ends rest)
    (hkey : key? cs = some (k, behind))
    (hv : value? fuel depth behind = some (v, writePrettyFields level fields rest)) :
    entries? (fuel + 1) depth cs = some ((k, v) :: fields, after) := by
  match fields with
  | [] => exact entries?_last hkey hv hrest
  | (l, w) :: more =>
    obtain ⟨hw, hmore⟩ := List.forall_mem_cons.mp hfields
    simp only [writePrettyFields, List.length_cons, length_newLine, length_writeString _ (':' :: _),
      length_writePretty _ _ (writePrettyFields _ _ _)] at hfuel
    obtain ⟨fuel, rfl⟩ : ∃ less, fuel = less + 1 := ⟨fuel - 1, by omega⟩
    have hfuel' : 2 * (writePretty level w []).length < fuel := by omega
    have hfirst := value?_writePretty level w hw hfuel'
      (ends_writePrettyFields level more hends)
    rw [← value?_congr_blanks (skipBlanks_space _)] at hfirst
    have hread := entries?_writePrettyFields level more hmore (by omega) hrest hends
      (key?_writeString l) hfirst
    rw [← entries?_congr_blanks (skipBlanks_newLine level _)] at hread
    exact entries?_more hkey hv (skipBlanks_cons rfl _) hread
termination_by structural fields

end

/-- A whole text is read as the tree that it was written for. -/
theorem decode?_pretty {v : Value} (hv : v.Storable maxDepth) : decode? (pretty v) = some v := by
  have hfuel : 2 * (writePretty 0 v []).length < 2 * (writePretty 0 v []).length + 2 := by omega
  have hread := value?_writePretty 0 v hv hfuel ends_nil
  rw [decode?, decodeWithin?, pretty, String.toList_ofList]
  simp only [hread]
  rfl

end Json

end StageVars

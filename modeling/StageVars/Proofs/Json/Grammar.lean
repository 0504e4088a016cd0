import StageVars.Proofs.Json.Numeral
import StageVars.Proofs.Json.Quoted
/-!
# StageVars.Proofs.Json.Grammar -- the texts of trees

`Spells cs v` says that a text is a JSON document for a tree. It is the grammar alone: blanks may
stand around every tree and every key, containers nest without a limit, and a number is the one
nearest to its numeral.

* `Spells.blanksBefore`, `Spells.blanksAfter`: blanks around a text.
* `Spells.head?`: the characters with which a document can begin.
-/

namespace StageVars

namespace Json

mutual

/-- A text of a tree, with any blanks around it. -/
inductive Spells : List Char → Value → Prop
  | null : Spells ['n', 'u', 'l', 'l'] .null
  | true : Spells ['t', 'r', 'u', 'e'] (.bool true)
  | false : Spells ['f', 'a', 'l', 's', 'e'] (.bool false)
  | number {cs : List Char} {n : Numeral} {x : Number} :
      numeral? cs = some (n, []) → n.Denotes x → Spells cs (.number x)
  | string {cs s : List Char} :
      quoted? cs = some (s, []) → Spells ('"' :: cs) (.string (String.ofList s))
  | emptyArray {blanks : List Char} :
      (∀ c ∈ blanks, isBlank c) → Spells ('[' :: (blanks ++ [']'])) (.array [])
  | array {cs : List Char} {items : List Value} :
      SpellsItems cs items → Spells ('[' :: (cs ++ [']'])) (.array items)
  | emptyObject {blanks : List Char} :
      (∀ c ∈ blanks, isBlank c) → Spells ('\x7b' :: (blanks ++ ['\x7d'])) (.object [])
  | object {cs : List Char} {entries : Fields} :
      SpellsEntries cs entries →
      Spells ('\x7b' :: (cs ++ ['\x7d'])) (.object (Fields.ofEntries entries))
  | blankBefore {c : Char} {cs : List Char} {v : Value} :
      isBlank c → Spells cs v → Spells (c :: cs) v
  | blankAfter {c : Char} {cs : List Char} {v : Value} :
      isBlank c → Spells cs v → Spells (cs ++ [c]) v

/-- A text of at least one item, with commas between items. -/
inductive SpellsItems : List Char → List Value → Prop
  | last {cs : List Char} {v : Value} : Spells cs v → SpellsItems cs [v]
  | more {cs rest : List Char} {v : Value} {items : List Value} :
      Spells cs v → SpellsItems rest items → SpellsItems (cs ++ ',' :: rest) (v :: items)

/-- A text of at least one entry, with commas between entries and colons behind keys. -/
inductive SpellsEntries : List Char → Fields → Prop
  | last {key cs : List Char} {k : String} {v : Value} :
      Spells key (.string k) → Spells cs v → SpellsEntries (key ++ ':' :: cs) [(k, v)]
  | more {key cs rest : List Char} {k : String} {v : Value} {entries : Fields} :
      Spells key (.string k) → Spells cs v → SpellsEntries rest entries →
      SpellsEntries (key ++ ':' :: (cs ++ ',' :: rest)) ((k, v) :: entries)

end

/-- A text that is one document for a tree. -/
def Document (text : String) (v : Value) : Prop := Spells text.toList v

theorem Spells.blanksBefore {blanks : List Char} (h : ∀ c ∈ blanks, isBlank c) {cs : List Char}
    {v : Value} (hcs : Spells cs v) : Spells (blanks ++ cs) v := by
  induction blanks with
  | nil => exact hcs
  | cons c rest ih =>
    obtain ⟨hc, hrest⟩ := List.forall_mem_cons.mp h
    exact .blankBefore hc (ih hrest)

theorem Spells.blanksAfter {blanks : List Char} (h : ∀ c ∈ blanks, isBlank c) {cs : List Char}
    {v : Value} (hcs : Spells cs v) : Spells (cs ++ blanks) v := by
  induction blanks generalizing cs with
  | nil => rwa [List.append_nil]
  | cons c rest ih =>
    obtain ⟨hc, hrest⟩ := List.forall_mem_cons.mp h
    rw [List.append_cons]
    exact ih hrest (.blankAfter hc hcs)

/-- A document may have a line end behind it. -/
theorem Document.append_newline {text : String} {v : Value} (h : Document text v) :
    Document (text ++ "\n") v := by
  have hline : (text ++ "\n").toList = text.toList ++ ['\n'] := by simp
  rw [Document, hline]
  exact .blankAfter rfl h

/-- The characters with which a tree can begin, blanks apart. -/
def isOpening (c : Char) : Bool :=
  c.isDigit || ['n', 't', 'f', '"', '[', '\x7b', '-'].contains c

theorem isDigit_of_digits? {c : Char} {cs : List Char} {found : List Char × List Char}
    (h : digits? (c :: cs) = some found) : c.isDigit := by
  by_contra hc
  rw [digits?, List.takeWhile_cons_of_neg hc] at h
  cases h

theorem isOpening_of_numeral? {c : Char} {cs : List Char} {n : Numeral} {rest : List Char}
    (h : numeral? (c :: cs) = some (n, rest)) : isOpening c := by
  by_cases hminus : c = '-'
  · subst hminus
    decide
  · have hunsigned : unsignedNumeral? false (c :: cs) = some (n, rest) := by
      rwa [numeral?] at h
      rintro _ heq
      exact hminus (List.cons.inj heq).1
    obtain ⟨_, hwhole, -⟩ := Option.bind_eq_some_iff.mp hunsigned
    have hdigit : c.isDigit := by
      rw [whole?] at hwhole
      split at hwhole
      next => cases hwhole
      next => exact isDigit_of_digits? hwhole
    rw [isOpening, hdigit, Bool.true_or]

/-- A document is not empty and begins with a blank or an opening character. -/
theorem Spells.head? : ∀ {cs : List Char} {v : Value}, Spells cs v →
    ∃ c rest, cs = c :: rest ∧ (isBlank c ∨ isOpening c)
  | _, _, .null => ⟨_, _, rfl, Or.inr (by decide)⟩
  | _, _, .true => ⟨_, _, rfl, Or.inr (by decide)⟩
  | _, _, .false => ⟨_, _, rfl, Or.inr (by decide)⟩
  | [], _, .number h _ => nomatch h
  | _ :: _, _, .number h _ => ⟨_, _, rfl, Or.inr (isOpening_of_numeral? h)⟩
  | _, _, .string _ => ⟨_, _, rfl, Or.inr (by decide)⟩
  | _, _, .emptyArray _ => ⟨_, _, rfl, Or.inr (by decide)⟩
  | _, _, .array _ => ⟨_, _, rfl, Or.inr (by decide)⟩
  | _, _, .emptyObject _ => ⟨_, _, rfl, Or.inr (by decide)⟩
  | _, _, .object _ => ⟨_, _, rfl, Or.inr (by decide)⟩
  | _, _, .blankBefore hc _ => ⟨_, _, rfl, Or.inl hc⟩
  | _, _, .blankAfter _ h => by
    obtain ⟨c, rest, rfl, hc⟩ := h.head?
    exact ⟨c, _, rfl, hc⟩

end Json

end StageVars

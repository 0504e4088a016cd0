import StageVars.Proofs.Json.Grammar
import StageVars.Proofs.Value.Extensional
import StageVars.Proofs.Value.Hereditary
/-!
# StageVars.Proofs.Json.Pretty -- a pretty text is a document

What is written for a tree stands before what follows and does not depend on it. The pretty text
of a tree is a document for that tree, if its objects name each key once and its numbers fit, as
is so for all that is read from documents.

* `writePretty_append`: the text of a tree and what follows.
* `spells_writePretty`: the text of a tree in the grammar.
* `document_pretty`: the text on its own.
-/

namespace StageVars

namespace Json

/-! ## What follows a text -/

theorem writeQuoted_append (cs after more : List Char) :
    writeQuoted cs (after ++ more) = writeQuoted cs after ++ more := by
  induction cs with
  | nil => rfl
  | cons c rest ih => rw [writeQuoted, writeQuoted, ih, List.append_assoc]

theorem writeString_append (s : String) (after more : List Char) :
    writeString s (after ++ more) = writeString s after ++ more := by
  rw [writeString, writeString, writeQuoted_append, List.cons_append]

theorem writeNumber_append (n : Number) (after more : List Char) :
    writeNumber n (after ++ more) = writeNumber n after ++ more := by
  cases n with
  | integer i =>
    rw [writeNumber, writeNumber]
    split <;> simp
  | float x => rw [writeNumber, writeNumber, List.append_assoc]

theorem writeLeaf_append (v : Value) (after more : List Char) :
    writeLeaf v (after ++ more) = writeLeaf v after ++ more := by
  match v with
  | .null | .bool true | .bool false | .array _ | .object _ => rfl
  | .number n => exact writeNumber_append n after more
  | .string s => exact writeString_append s after more

theorem newLine_append (level : Nat) (after more : List Char) :
    newLine level (after ++ more) = newLine level after ++ more := by
  rw [newLine, newLine, List.cons_append, List.append_assoc]

mutual

/-- The text of a tree does not depend on what follows. -/
theorem writePretty_append (level : Nat) (v : Value) (after more : List Char) :
    writePretty level v (after ++ more) = writePretty level v after ++ more := by
  match v with
  | .null | .bool _ | .number _ | .string _ | .array [] | .object [] =>
    exact writeLeaf_append _ after more
  | .array (item :: items) =>
    rw [writePretty, writePretty, ← List.cons_append, newLine_append,
      writePrettyItems_append (level + 1) items, writePretty_append (level + 1) item,
      newLine_append, List.cons_append]
  | .object ((k, item) :: fields) =>
    rw [writePretty, writePretty, ← List.cons_append, newLine_append,
      writePrettyFields_append (level + 1) fields, writePretty_append (level + 1) item,
      ← List.cons_append, ← List.cons_append, writeString_append, newLine_append,
      List.cons_append]
termination_by structural v

theorem writePrettyItems_append (level : Nat) (items : List Value) (after more : List Char) :
    writePrettyItems level items (after ++ more) = writePrettyItems level items after ++ more := by
  match items with
  | [] => rfl
  | v :: rest =>
    rw [writePrettyItems, writePrettyItems, writePrettyItems_append level rest,
      writePretty_append level v, newLine_append, List.cons_append]
termination_by structural items

theorem writePrettyFields_append (level : Nat) (fields : Fields) (after more : List Char) :
    writePrettyFields level fields (after ++ more)
      = writePrettyFields level fields after ++ more := by
  match fields with
  | [] => rfl
  | (k, v) :: rest =>
    rw [writePrettyFields, writePrettyFields, writePrettyFields_append level rest,
      writePretty_append level v, ← List.cons_append, ← List.cons_append, writeString_append,
      newLine_append, List.cons_append]
termination_by structural fields

end

/-! ## Documents -/

theorem blanks_newLine (level : Nat) : ∀ c ∈ newLine level [], isBlank c := by
  intro c h
  rw [newLine, List.append_nil] at h
  rcases List.mem_cons.mp h with rfl | hspace
  · rfl
  · rw [List.eq_of_mem_replicate hspace]
    rfl

theorem newLine_eq (level : Nat) (after : List Char) :
    newLine level after = newLine level [] ++ after :=
  newLine_append level [] after

theorem writePretty_eq (level : Nat) (v : Value) (after : List Char) :
    writePretty level v after = writePretty level v [] ++ after :=
  writePretty_append level v [] after

theorem writeString_eq (s : String) (after : List Char) :
    writeString s after = writeString s [] ++ after :=
  writeString_append s [] after

/-- An object whose entries name each key once is the one that they describe. -/
theorem ofEntries_of_distinctKeys {fields : Fields} (h : (Value.object fields).DistinctKeys) :
    Fields.ofEntries fields = fields :=
  Fields.insertAll_of_nodup h.nodup

theorem spells_writeString (s : String) : Spells (writeString s []) (.string s) := by
  have hspells : Spells ('"' :: writeQuoted s.toList []) (.string (String.ofList s.toList)) :=
    .string (quoted?_writeQuoted s.toList [])
  rwa [String.ofList_toList] at hspells

theorem spells_writeNumber {n : Number} (h : n.Fits) : Spells (writeNumber n []) (.number n) := by
  obtain ⟨numeral, hformed, hdenotes, htext⟩ : ∃ m : Numeral, m.WellFormed ∧ m.Denotes n
      ∧ ∀ after, writeNumber n after = m.text ++ after := by
    cases n with
    | integer i => exact exists_numeral_integer i
    | float x => exact exists_numeral_float h
  refine .number ?_ hdenotes
  rw [htext]
  exact Numeral.numeral?_text hformed Numeral.ends_nil

mutual

/-- The pretty text of a tree is one of its texts. -/
theorem spells_writePretty (level : Nat) (v : Value) (hkeys : v.DistinctKeys)
    (hfit : v.NumbersFit) : Spells (writePretty level v []) v := by
  match v with
  | .null => exact .null
  | .bool true => exact .true
  | .bool false => exact .false
  | .number n => exact spells_writeNumber hfit
  | .string s => exact spells_writeString s
  | .array [] => exact .emptyArray (List.forall_mem_nil _)
  | .object [] => exact .emptyObject (List.forall_mem_nil _)
  -- blanks before an item are part of its text, and so are those before the closing bracket
  | .array (item :: items) =>
    have hitem := spells_writePretty (level + 1) item hkeys.1 hfit.1
    have hitems := spells_writePrettyItems (level + 1) items hkeys.2 hfit.2
      (hitem.blanksBefore (blanks_newLine (level + 1))) (blanks_newLine level)
    rw [writePretty, newLine_eq level, writePrettyItems_append, writePretty_eq,
      newLine_eq, ← List.append_assoc, ← List.append_assoc]
    exact .array hitems
  | .object ((k, item) :: fields) =>
    have hkey := (spells_writeString k).blanksBefore (blanks_newLine (level + 1))
    have hitem := spells_writePretty (level + 1) item hkeys.2.1 hfit.1
    have hentries := spells_writePrettyFields (level + 1) fields hkeys.2.2 hfit.2 hkey
      (.blankBefore (c := ' ') rfl hitem) (blanks_newLine level)
    -- the grammar inserts the entries one by one, which here puts them back as they were
    have hobject := Spells.object hentries
    rw [ofEntries_of_distinctKeys hkeys] at hobject
    rw [writePretty, newLine_eq level, writePrettyFields_append, writePretty_eq,
      writeString_eq, newLine_eq]
    simpa using hobject
termination_by structural v

/-- The texts of further items behind that of one. -/
theorem spells_writePrettyItems (level : Nat) (items : List Value)
    (hkeys : Value.DistinctItems items) (hfit : Value.ItemNumbersFit items) {cs : List Char}
    {v : Value} (hcs : Spells cs v) {blanks : List Char} (hblanks : ∀ c ∈ blanks, isBlank c) :
    SpellsItems (cs ++ writePrettyItems level items blanks) (v :: items) := by
  match items with
  | [] => exact .last (hcs.blanksAfter hblanks)
  | w :: rest =>
    have hw := spells_writePretty level w hkeys.1 hfit.1
    have hrest := spells_writePrettyItems level rest hkeys.2 hfit.2
      (hw.blanksBefore (blanks_newLine level)) hblanks
    rw [writePrettyItems, newLine_eq, writePretty_eq, ← List.append_assoc]
    exact .more hcs hrest
termination_by structural items

/-- The texts of further entries behind that of one. -/
theorem spells_writePrettyFields (level : Nat) (fields : Fields)
    (hkeys : Value.DistinctFields fields) (hfit : Value.FieldNumbersFit fields)
    {key cs : List Char} {k : String} {v : Value} (hkey : Spells key (.string k))
    (hcs : Spells cs v) {blanks : List Char} (hblanks : ∀ c ∈ blanks, isBlank c) :
    SpellsEntries (key ++ ':' :: (cs ++ writePrettyFields level fields blanks))
      ((k, v) :: fields) := by
  match fields with
  | [] => exact .last hkey (hcs.blanksAfter hblanks)
  | (l, w) :: rest =>
    have hl := (spells_writeString l).blanksBefore (blanks_newLine level)
    have hw := spells_writePretty level w hkeys.1 hfit.1
    have hrest := spells_writePrettyFields level rest hkeys.2 hfit.2 hl
      (.blankBefore (c := ' ') rfl hw) hblanks
    have hmore := SpellsEntries.more hkey hcs hrest
    rw [writePrettyFields, newLine_eq, writeString_eq, writePretty_eq]
    simpa using hmore
termination_by structural fields

end

/-- The pretty text of a tree is a document for it. -/
theorem document_pretty {v : Value} (hkeys : v.DistinctKeys) (hfit : v.NumbersFit) :
    Document (pretty v) v := by
  rw [Document, pretty, String.toList_ofList]
  exact spells_writePretty 0 v hkeys hfit

end Json

end StageVars

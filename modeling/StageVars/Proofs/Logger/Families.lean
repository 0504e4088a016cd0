import Mathlib.Logic.Relation
import StageVars.Logger
/-!
# StageVars.Proofs.Logger.Families -- what the loggers of a family show

Cloning ties loggers into families: all that come from one original. A family writes to one
buffer, of which no other family knows, and so each of its loggers shows what any of them wrote,
in the order of writing and since the original was made. That two families bear one name makes no
difference.

* `History`: what was done with buffered loggers, step by step.
* `sameFamily_iff`: families by their originals.
* `Accounts`: names, buffers and lines of a book, right after every step.
* `lines_of_family`: what a logger shows after any history.
-/

namespace StageVars

/-! ## Messages -/

namespace Logger

/-- What a logger is given to write. -/
inductive Message where
  | plain (text : String)
  | parts (texts : List String)
  | warning (text : String)

/-- Texts with one blank between any two of them. -/
def spaced : List String → String
  | [] => ""
  | [text] => text
  | text :: next :: rest => text ++ " " ++ spaced (next :: rest)

/-- The text of a message. -/
def Message.text : Message → String
  | .plain text => text
  | .parts texts => spaced texts
  | .warning text => "WARNING: " ++ text

theorem joined_eq_spaced (texts : List String) : joined texts = spaced texts := by
  induction texts with
  | nil => rfl
  | cons text rest ih =>
    cases rest with
    | nil => exact String.intercalate_singleton
    | cons next rest =>
      rw [spaced, ← ih]
      exact String.intercalate_cons_cons

theorem warning_eq (text : String) : warning text = "WARNING: " ++ text := by
  rw [warning, joined_eq_spaced]
  rfl

end Logger

namespace LogBook

/-- Write a message with a logger, in the way of its kind. -/
def write (book : LogBook) (index : Nat) : Logger.Message → LogBook
  | .plain text => book.log index text
  | .parts texts => book.log index (Logger.joined texts)
  | .warning text => book.log index (Logger.warning text)

/-- Messages of all kinds are written as their text. -/
theorem write_eq_log (book : LogBook) (index : Nat) (message : Logger.Message) :
    book.write index message = book.log index message.text := by
  cases message with
  | plain text => rfl
  | parts texts => rw [write, Logger.joined_eq_spaced, Logger.Message.text]
  | warning text => rw [write, Logger.warning_eq, Logger.Message.text]

/-! ## Histories -/

/-- What was done with buffered loggers, of which there are `n` in the end. They go by number in
the order of their making, and only one that is there can be cloned or written with. -/
inductive History : Nat → Type where
  | start : History 0
  | add {n : Nat} (h : History n) (name : String) : History (n + 1)
  | clone {n : Nat} (h : History n) (on : Fin n) : History (n + 1)
  | write {n : Nat} (h : History n) (on : Fin n) (message : Logger.Message) : History n

/-- A message and the logger that it was written with. -/
structure Emission where
  on : Nat
  message : Logger.Message

namespace History

variable {n : Nat}

/-- The book after a history. -/
def book : {n : Nat} → History n → LogBook
  | _, .start => .empty
  | _, .add h name => h.book.add name
  | _, .clone h on => h.book.clone on
  | _, .write h on message => h.book.write on message

/-- The messages of a history in order. -/
def emissions : {n : Nat} → History n → List Emission
  | _, .start => []
  | _, .add h _ | _, .clone h _ => h.emissions
  | _, .write h on message => h.emissions ++ [⟨on, message⟩]

/-- The logger that a number leads to when the last one was cloned: from the clone to its parent,
and else to the logger itself. -/
def behind (on : Fin n) (i : Nat) : Nat := if i = n then on else i

/-- The name of a logger: its own, or for a clone that of the logger it was cloned from. -/
def name : {n : Nat} → History n → Nat → String
  | _, .start, _ => ""
  | _, @add n h new, i => if i = n then new else h.name i
  | _, .clone h on, i => h.name (behind on i)
  | _, .write h _ _, i => h.name i

/-- A logger was cloned from another one. -/
def Cloned : {n : Nat} → History n → Nat → Nat → Prop
  | _, .start, _, _ => False
  | _, .add h _, parent, child | _, .write h _ _, parent, child => h.Cloned parent child
  | _, @clone n h on, parent, child => h.Cloned parent child ∨ parent = on ∧ child = n

/-- Cloning leads to both loggers from one original. -/
def SameFamily (h : History n) (i j : Nat) : Prop :=
  ∃ original, Relation.ReflTransGen h.Cloned original i ∧ Relation.ReflTransGen h.Cloned original j

/-- The line of a message: the name of its logger and the text. -/
def line (h : History n) (e : Emission) : String := h.name e.on ++ ": " ++ e.message.text

/-! ## Originals -/

theorem behind_self (on : Fin n) : behind on n = on := if_pos rfl

theorem behind_of_ne (on : Fin n) {i : Nat} (h : i ≠ n) : behind on i = i := if_neg h

/-- The original of a logger: for a clone that of the logger it was cloned from. -/
def original : {n : Nat} → History n → Nat → Nat
  | _, .start, i => i
  | _, .add h _, i | _, .write h _ _, i => h.original i
  | _, .clone h on, i => h.original (behind on i)

theorem original_le (h : History n) (i : Nat) : h.original i ≤ i := by
  induction h generalizing i with
  | start => exact Nat.le_refl i
  | add h name ih => exact ih i
  | write h on message ih => exact ih i
  | @clone n h on ih =>
    refine Nat.le_trans (ih _) ?_
    by_cases hi : i = n
    · subst hi
      rw [behind_self]
      exact Nat.le_of_lt on.isLt
    · exact Nat.le_of_eq (behind_of_ne on hi)

/-- A logger that is not there yet is nobody's clone. -/
theorem original_self (h : History n) {i : Nat} (hi : n ≤ i) : h.original i = i := by
  induction h with
  | start => rfl
  | add h name ih => exact ih (Nat.le_of_succ_le hi)
  | write h on message ih => exact ih hi
  | @clone n h on ih =>
    rw [original, behind_of_ne on (Nat.ne_of_gt hi)]
    exact ih (Nat.le_of_succ_le hi)

/-- A clone is made after its parent. -/
theorem lt_of_cloned {h : History n} {parent child : Nat} (hc : h.Cloned parent child) :
    parent < child ∧ child < n := by
  induction h with
  | start => cases hc
  | add h name ih => exact (ih hc).imp_right Nat.lt_succ_of_lt
  | write h on message ih => exact ih hc
  | clone h on ih =>
    rcases hc with hc | ⟨rfl, rfl⟩
    · exact (ih hc).imp_right Nat.lt_succ_of_lt
    · exact ⟨on.isLt, Nat.lt_succ_self _⟩

/-- Neither of them has the number of the next logger. -/
theorem ne_of_cloned {h : History n} {parent child : Nat} (hc : h.Cloned parent child) :
    parent ≠ n ∧ child ≠ n :=
  ⟨Nat.ne_of_lt (Nat.lt_trans (lt_of_cloned hc).1 (lt_of_cloned hc).2),
    Nat.ne_of_lt (lt_of_cloned hc).2⟩

/-- A clone has the original and the name of its parent. -/
theorem inherits_of_cloned {h : History n} {parent child : Nat} (hc : h.Cloned parent child) :
    h.original child = h.original parent ∧ h.name child = h.name parent := by
  induction h with
  | start => cases hc
  | add h new ih =>
    obtain ⟨hparent, hchild⟩ := ne_of_cloned (h := h) hc
    rw [name, name, if_neg hparent, if_neg hchild]
    exact ih hc
  | write h on message ih => exact ih hc
  | clone h on ih =>
    rw [original, original, name, name]
    rcases hc with hc | ⟨rfl, rfl⟩
    · obtain ⟨hparent, hchild⟩ := ne_of_cloned hc
      rw [behind_of_ne on hparent, behind_of_ne on hchild]
      exact ih hc
    · rw [behind_self, behind_of_ne on (Nat.ne_of_lt on.isLt)]
      exact ⟨rfl, rfl⟩

/-- So have all to which cloning leads. -/
theorem inherits_of_reaches {h : History n} {i j : Nat}
    (hr : Relation.ReflTransGen h.Cloned i j) :
    h.original j = h.original i ∧ h.name j = h.name i := by
  induction hr with
  | refl => exact ⟨rfl, rfl⟩
  | tail _ hc ih =>
    obtain ⟨horiginal, hname⟩ := inherits_of_cloned hc
    exact ⟨horiginal.trans ih.1, hname.trans ih.2⟩

/-- Cloning leads from its original to a logger. -/
theorem reaches_original (h : History n) (i : Nat) :
    Relation.ReflTransGen h.Cloned (h.original i) i := by
  induction h generalizing i with
  | start => exact .refl
  | add h name ih => exact ih i
  | write h on message ih => exact ih i
  | @clone n h on ih =>
    have hlater {i j : Nat} (hr : Relation.ReflTransGen h.Cloned i j) :
        Relation.ReflTransGen (h.clone on).Cloned i j :=
      Relation.ReflTransGen.mono (fun _ _ => Or.inl) _ _ hr
    rw [original]
    by_cases hi : i = n
    · subst hi
      rw [behind_self]
      exact (hlater (ih on)).tail (Or.inr ⟨rfl, rfl⟩)
    · rw [behind_of_ne on hi]
      exact hlater (ih i)

/-- Families are known by their originals. -/
theorem sameFamily_iff (h : History n) (i j : Nat) :
    h.SameFamily i j ↔ h.original i = h.original j := by
  constructor
  · rintro ⟨original, hi, hj⟩
    rw [(inherits_of_reaches hi).1, (inherits_of_reaches hj).1]
  · intro heq
    exact ⟨h.original i, h.reaches_original i, heq ▸ h.reaches_original j⟩

instance (h : History n) (i j : Nat) : Decidable (h.SameFamily i j) :=
  decidable_of_iff _ (h.sameFamily_iff i j).symm

/-! ## The lines of a family -/

/-- The lines that the loggers of a logger's family wrote, in order. -/
def familyLines (h : History n) (i : Nat) : List String :=
  (h.emissions.filter fun e => h.original e.on = h.original i).map h.line

theorem familyLines_eq (h : History n) (i : Nat) :
    h.familyLines i = (h.emissions.filter fun e => h.SameFamily e.on i).map h.line := by
  refine congrArg (List.map h.line) (List.filter_congr fun e _ => ?_)
  simp only [sameFamily_iff]

theorem on_lt_of_mem_emissions {h : History n} {e : Emission} (he : e ∈ h.emissions) :
    e.on < n := by
  induction h with
  | start => cases he
  | add h name ih => exact Nat.lt_succ_of_lt (ih he)
  | clone h on ih => exact Nat.lt_succ_of_lt (ih he)
  | write h on message ih =>
    rcases List.mem_append.mp he with hbefore | hlast
    · exact ih hbefore
    · obtain rfl := List.mem_singleton.mp hlast
      exact on.isLt

/-- A logger that is not there yet is of the family of none that is. -/
theorem original_ne (h : History n) {i : Nat} (hi : i < n) : h.original i ≠ h.original n := by
  rw [h.original_self (Nat.le_refl n)]
  exact Nat.ne_of_lt (Nat.lt_of_le_of_lt (h.original_le i) hi)

/-- So there is nothing yet that its family wrote. -/
theorem familyLines_self (h : History n) : h.familyLines n = [] := by
  refine List.map_eq_nil_iff.mpr (List.filter_eq_nil_iff.mpr fun e he => ?_)
  simpa using original_ne h (on_lt_of_mem_emissions he)

/-- A new logger leaves all lines as they were. -/
theorem familyLines_add (h : History n) (new : String) (i : Nat) :
    (h.add new).familyLines i = h.familyLines i := by
  refine List.map_congr_left fun e he => ?_
  have hold : e.on ≠ n := Nat.ne_of_lt (on_lt_of_mem_emissions (List.mem_filter.mp he).1)
  rw [line, line, name, if_neg hold]

/-- A clone has the lines of its parent and leaves all others as they were. -/
theorem familyLines_clone (h : History n) (on : Fin n) (i : Nat) :
    (h.clone on).familyLines i = h.familyLines (behind on i) := by
  have hold {e : Emission} (he : e ∈ h.emissions) : behind on e.on = e.on :=
    behind_of_ne on (Nat.ne_of_lt (on_lt_of_mem_emissions he))
  have hfilter : (h.emissions.filter fun e => (h.clone on).original e.on = (h.clone on).original i)
      = h.emissions.filter fun e => h.original e.on = h.original (behind on i) := by
    refine List.filter_congr fun e he => ?_
    rw [original, original, hold he]
  show (h.emissions.filter _).map _ = _
  rw [hfilter]
  refine List.map_congr_left fun e he => ?_
  rw [line, line, name, hold (List.mem_filter.mp he).1]

/-- A message adds its line to those of its family and to no others. -/
theorem familyLines_write (h : History n) (on : Fin n) (message : Logger.Message) (i : Nat) :
    (h.write on message).familyLines i
      = if h.original on = h.original i
        then h.familyLines i ++ [h.name on ++ ": " ++ message.text] else h.familyLines i := by
  show ((h.emissions ++ [Emission.mk on message]).filter
    fun e => h.original e.on = h.original i).map h.line = _
  rw [List.filter_append, List.map_append]
  by_cases hsame : h.original on = h.original i
  · rw [if_pos hsame, List.filter_cons_of_pos (by simpa using hsame)]
    rfl
  · rw [if_neg hsame, List.filter_cons_of_neg (by simpa using hsame)]
    exact List.append_nil _

/-! ## What a book holds -/

/-- A book accounts for a history: loggers have their names, two of them have one buffer exactly
if they are of one family, and each buffer holds the lines of its family. -/
structure Accounts (h : History n) : Prop where
  length : h.book.loggers.length = n
  name : ∀ {i l}, h.book.loggers[i]? = some l → l.logger.name = h.name i
  shared : ∀ {i j l l'}, h.book.loggers[i]? = some l → h.book.loggers[j]? = some l' →
    (l.buffer = l'.buffer ↔ h.original i = h.original j)
  held : ∀ {i l}, h.book.loggers[i]? = some l → h.book.buffers[l.buffer]? = some (h.familyLines i)

theorem accounts_start : Accounts .start where
  length := rfl
  name := nofun
  shared := nofun
  held := nofun

namespace Accounts

variable {h : History n}

theorem lt (hh : Accounts h) {i : Nat} {l : BufferedLogger} (hl : h.book.loggers[i]? = some l) :
    i < n :=
  hh.length ▸ (List.getElem?_eq_some_iff.mp hl).1

theorem buffer_lt (hh : Accounts h) {i : Nat} {l : BufferedLogger}
    (hl : h.book.loggers[i]? = some l) : l.buffer < h.book.buffers.length :=
  (List.getElem?_eq_some_iff.mp (hh.held hl)).1

theorem exists_logger (hh : Accounts h) {i : Nat} (hi : i < n) :
    ∃ l, h.book.loggers[i]? = some l :=
  ⟨_, List.getElem?_eq_getElem (hh.length.symm ▸ hi)⟩

/-- What is found among the loggers with one more behind them. -/
theorem getElem?_concat_cases (hh : Accounts h) {last l : BufferedLogger} {i : Nat}
    (hl : (h.book.loggers ++ [last])[i]? = some l) :
    h.book.loggers[i]? = some l ∨ i = n ∧ l = last := by
  rcases Nat.lt_trichotomy i n with hlt | rfl | hgt
  · rw [List.getElem?_append_left (hh.length.symm ▸ hlt)] at hl
    exact Or.inl hl
  · rw [List.getElem?_append_right (Nat.le_of_eq hh.length), hh.length, Nat.sub_self] at hl
    exact Or.inr ⟨rfl, (Option.some.inj hl).symm⟩
  · have hlen := (List.getElem?_eq_some_iff.mp hl).1
    rw [List.length_append, hh.length] at hlen
    exact absurd hlen (Nat.not_lt.mpr hgt)

/-- A new logger has a buffer of its own, which is empty. -/
theorem add (hh : Accounts h) (new : String) : Accounts (h.add new) := by
  have hbook : (h.add new).book
      = ⟨h.book.loggers ++ [⟨⟨new⟩, h.book.buffers.length⟩], h.book.buffers ++ [[]]⟩ := rfl
  constructor <;> rw [hbook]
  case length => rw [List.length_append, hh.length, List.length_singleton]
  case name =>
    intro i l hl
    rcases hh.getElem?_concat_cases hl with hl | ⟨rfl, rfl⟩
    · rw [hh.name hl, History.name, if_neg (Nat.ne_of_lt (hh.lt hl))]
    · exact (if_pos rfl).symm
  case shared =>
    intro i j l l' hl hl'
    show _ ↔ h.original i = h.original j
    rcases hh.getElem?_concat_cases hl with hl | ⟨rfl, rfl⟩ <;>
      rcases hh.getElem?_concat_cases hl' with hl' | ⟨rfl, rfl⟩
    · exact hh.shared hl hl'
    · exact iff_of_false (Nat.ne_of_lt (hh.buffer_lt hl)) (original_ne h (hh.lt hl))
    · exact iff_of_false (Nat.ne_of_gt (hh.buffer_lt hl')) (original_ne h (hh.lt hl')).symm
    · exact iff_of_true rfl rfl
  case held =>
    intro i l hl
    rw [familyLines_add]
    rcases hh.getElem?_concat_cases hl with hl | ⟨rfl, rfl⟩
    · rw [List.getElem?_append_left (hh.buffer_lt hl), hh.held hl]
    · rw [List.getElem?_concat_length, familyLines_self]

/-- A clone is its parent once more. -/
theorem clone (hh : Accounts h) (on : Fin n) : Accounts (h.clone on) := by
  obtain ⟨parent, hparent⟩ := hh.exists_logger on.isLt
  have hbook : (h.clone on).book = ⟨h.book.loggers ++ [parent], h.book.buffers⟩ := by
    rw [book, LogBook.clone, hparent]
  have hbehind {i : Nat} {l : BufferedLogger} (hl : (h.book.loggers ++ [parent])[i]? = some l) :
      h.book.loggers[behind on i]? = some l := by
    rcases hh.getElem?_concat_cases hl with hl | ⟨rfl, rfl⟩
    · rw [behind_of_ne on (Nat.ne_of_lt (hh.lt hl)), hl]
    · rw [behind_self, hparent]
  constructor <;> rw [hbook]
  case length => rw [List.length_append, hh.length, List.length_singleton]
  case name => exact fun hl => hh.name (hbehind hl)
  case shared => exact fun hl hl' => hh.shared (hbehind hl) (hbehind hl')
  case held =>
    intro i l hl
    rw [familyLines_clone]
    exact hh.held (hbehind hl)

/-- A message reaches the buffer of its logger's family. -/
theorem write (hh : Accounts h) (on : Fin n) (message : Logger.Message) :
    Accounts (h.write on message) := by
  obtain ⟨writer, hwriter⟩ := hh.exists_logger on.isLt
  have hbook : (h.write on message).book = LogBook.mk h.book.loggers
      (h.book.buffers.modify writer.buffer
        fun lines => lines ++ [h.name on ++ ": " ++ message.text]) := by
    rw [book, write_eq_log, LogBook.log, hwriter, ← hh.name hwriter]
    rfl
  constructor <;> rw [hbook]
  case length => exact hh.length
  case name => exact hh.name
  case shared => exact hh.shared
  case held =>
    intro i l hl
    rw [List.getElem?_modify, hh.held hl, familyLines_write]
    by_cases hsame : h.original on = h.original i
    · have hbuffer := (hh.shared hwriter hl).mpr hsame
      simp [hsame, hbuffer]
    · have hbuffer := mt (hh.shared hwriter hl).mp hsame
      simp [hsame, hbuffer]

end Accounts

/-- The book after a history accounts for it. -/
theorem accounts (h : History n) : Accounts h := by
  induction h with
  | start => exact accounts_start
  | add h name ih => exact ih.add name
  | clone h on ih => exact ih.clone on
  | write h on message ih => exact ih.write on message

/-- What a logger shows is what its family wrote. -/
theorem lines_book (h : History n) {i : Nat} (hi : i < n) : h.book.lines i = h.familyLines i := by
  obtain ⟨l, hl⟩ := h.accounts.exists_logger hi
  rw [lines, hl]
  show (h.book.buffers[l.buffer]?).getD [] = _
  rw [h.accounts.held hl, Option.getD_some]

/-- **A logger shows what its family wrote, and nothing else.** After any history there are as
many loggers as were made. Each shows one line for each message that was written with a logger of
its family, in the order of writing: the name, which the family has in common, and the text. No
other line is among them, whatever the names of other families are. A clone shows from the
beginning what its parent shows, and with that what was written before it was made. -/
theorem lines_of_family (h : History n) (i : Fin n) :
    h.book.loggers.length = n
    ∧ h.book.lines i = (h.emissions.filter fun e => h.SameFamily e.on i).map h.line
    ∧ (∀ j, h.SameFamily j i → h.name j = h.name i)
    ∧ (h.clone i).book.lines n = h.book.lines i := by
  have hlines := h.lines_book i.isLt
  refine ⟨h.accounts.length, ?_, ?_, ?_⟩
  · rw [hlines, familyLines_eq]
  · rintro j ⟨original, hj, hi⟩
    rw [(inherits_of_reaches hj).2, (inherits_of_reaches hi).2]
  · rw [(h.clone i).lines_book (Nat.lt_succ_self n), familyLines_clone, behind_self, hlines]

/-- Two families of one name; the clone of a clone shows what was written before it was made. -/
example :
    let twice := (History.start.add "pkg").add "pkg"
    let cloned := (twice.write 0 (.plain "first")).clone 0
    let again := ((cloned.write 1 (.parts ["a", "b"])).write 2 (.warning "late")).clone 2
    again.book.lines 3 = ["pkg: first", "pkg: WARNING: late"] ∧ again.book.lines 1 = ["pkg: a b"] := by
  decide

end History

end LogBook

end StageVars

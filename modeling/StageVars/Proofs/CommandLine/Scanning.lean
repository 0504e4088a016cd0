import Mathlib.Data.List.TakeWhile
import StageVars.CommandLine.Parse
/-!
# StageVars.Proofs.CommandLine.Scanning -- reading arguments one after the other

At both levels of a command line, options and their values are taken from the arguments in the
same way. `take?` is what one argument does to what has been read so far, as long as it is neither
a mistake nor a word of its own, and `takeAll?` what several do. A scan that has taken some
arguments goes on with the rest as if they had not been there.

* `Scan.Holds`: what has been given once all that is pending is looked at.
* `Scan.Reads`: arguments that are taken, and what has been given behind them.
* `scanRoot_append`, `scanCommand_append`: both levels, by what the arguments do.
* `scanRoot_reads`, `scanRoot_command`, `scanCommand_reads`: whole levels that are taken.
-/

namespace StageVars

namespace CommandLine

/-! ## The shapes of arguments -/

theorem shape_long {body : String} (h : body ≠ "") : shape ("--" ++ body) = .long body.toList := by
  obtain ⟨c, rest, hbody⟩ := List.exists_cons_of_ne_nil (mt String.toList_eq_nil_iff.mp h)
  have hlist : ("--" ++ body).toList = '-' :: '-' :: c :: rest := by
    rw [String.toList_append, hbody]
    rfl
  rw [shape, hlist, hbody]
  rfl

theorem shape_short {c : Char} (h : c ≠ '-') (body : String) :
    shape ("-" ++ c.toString ++ body) = .short (c :: body.toList) := by
  have hlist : ("-" ++ c.toString ++ body).toList = '-' :: c :: body.toList := by
    simp [Char.toString]
  rw [shape, hlist]
  simp [h]

theorem shape_word {text : String} (h : text.toList.head? ≠ some '-') : shape text = .word := by
  rw [shape]
  split <;> simp_all

namespace Scan

/-- What has been read when one more argument was an option, or the value of one. -/
def take? (level : Level) (s : Scan) (arg : String) : Option Scan :=
  match shape arg with
  | .long body => (s.long level body).toOption
  | .short body => (s.short level body).toOption
  | .word => if s.waits then some (s.supply arg) else none
  | .terminator => none

theorem take?_long {level : Level} {s s' : Scan} {body : String} (hbody : body ≠ "")
    (h : s.long level body.toList = .ok s') : s.take? level ("--" ++ body) = some s' := by
  rw [take?, shape_long hbody]
  simp only [h]
  rfl

theorem take?_short {level : Level} {s s' : Scan} {c : Char} (hc : c ≠ '-') {body : String}
    (h : s.short level (c :: body.toList) = .ok s') :
    s.take? level ("-" ++ c.toString ++ body) = some s' := by
  rw [take?, shape_short hc]
  simp only [h]
  rfl

theorem take?_letter {level : Level} {s s' : Scan} {c : Char} (hc : c ≠ '-')
    (h : s.short level [c] = .ok s') : s.take? level ("-" ++ c.toString) = some s' := by
  rw [← @String.append_empty ("-" ++ c.toString)]
  exact take?_short hc h

/-- A word is the value of an option that waits for one. -/
theorem take?_word (level : Level) {s : Scan} (hs : s.waits = true) {text : String}
    (h : text.toList.head? ≠ some '-') : s.take? level text = some (s.supply text) := by
  rw [take?, shape_word h]
  exact if_pos hs

/-- What has been read when all of some arguments were options and their values. -/
def takeAll? (level : Level) (s : Scan) (args : List String) : Option Scan :=
  args.foldlM (take? level) s

theorem takeAll?_append (level : Level) (s : Scan) (front back : List String) :
    s.takeAll? level (front ++ back) = (s.takeAll? level front).bind (takeAll? level · back) :=
  List.foldlM_append

/-- No option waits for a value, and when the value of the last one is looked at, this is what has
been given. -/
def Holds (s : Scan) (g : Given) : Prop := s.waits = false ∧ s.settle = .ok ⟨g, none⟩

theorem holds_settled (g : Given) : Holds ⟨g, none⟩ g := ⟨rfl, rfl⟩

/-- Some arguments are options and their values, and behind them this has been given. -/
def Reads (level : Level) (s : Scan) (args : List String) (g : Given) : Prop :=
  ∃ s', s.takeAll? level args = some s' ∧ s'.Holds g

/-! ## Giving one option -/

variable {s : Scan} {g g' : Given} {o : Opt} {level : Level}

theorem settled_give {value : String} (h : g.give o value = .ok g') :
    (do return ⟨← g.give o value, none⟩ : Except UsageError Scan) = .ok ⟨g', none⟩ := by
  rw [h]
  rfl

theorem Holds.give (hs : s.Holds g) {value : String} (h : g.give o value = .ok g') :
    s.give o value = .ok ⟨g', none⟩ := by
  rw [Scan.give, hs.2]
  exact settled_give h

theorem Holds.await (hs : s.Holds g) (o : Opt) : s.await o = .ok ⟨g, some (o, none)⟩ := by
  rw [Scan.await, hs.2]
  rfl

/-- The value for which an option waited is looked at later. -/
theorem holds_supply {value : String} (h : g.give o value = .ok g') :
    (supply ⟨g, some (o, none)⟩ value).Holds g' :=
  ⟨rfl, settled_give h⟩

theorem bne_of_not_mem {c : Char} {l : List Char} (h : c ∉ l) : ∀ d ∈ l, (d != c) = true := by
  rintro d hd
  rw [bne_iff_ne]
  rintro rfl
  exact h hd

theorem long_alone {name : String} (ho : level.ofLong? name = some o) (hname : '=' ∉ name.toList) :
    s.long level name.toList = match o.arity with
      | .flag => s.give o ""
      | .value => s.await o := by
  have hname := bne_of_not_mem hname
  simp only [long, List.takeWhile_eq_self_iff.mpr hname, List.dropWhile_eq_nil_iff.mpr hname,
    String.ofList_toList, ho]
  cases o.arity <;> rfl

theorem long_joined {name : String} (ho : level.ofLong? name = some o) (hname : '=' ∉ name.toList)
    (harity : o.arity = .value) (value : String) :
    s.long level (name ++ "=" ++ value).toList = s.give o value := by
  have hname := bne_of_not_mem hname
  have hbody : (name ++ "=" ++ value).toList = name.toList ++ '=' :: value.toList := by simp
  simp only [long, hbody, List.takeWhile_append_of_pos hname, List.dropWhile_append_of_pos hname]
  simp [ho, harity]

theorem short_alone {c : Char} (ho : level.ofShort? c = some o) :
    s.short level [c] = match o.arity with
      | .flag => s.give o ""
      | .value => s.await o := by
  rw [short, ho]
  cases harity : o.arity with
  | flag =>
    simp only [harity]
    cases s.give o "" <;> rfl
  | value => simp only [harity]

theorem short_joined {c : Char} (ho : level.ofShort? c = some o) (harity : o.arity = .value)
    {value : String} (hvalue : value ≠ "") (hequals : value.toList.head? ≠ some '=') :
    s.short level (c :: value.toList) = s.give o value := by
  obtain ⟨x, rest, htext⟩ := List.exists_cons_of_ne_nil (mt String.toList_eq_nil_iff.mp hvalue)
  have hx : x ≠ '=' := by simpa [htext] using hequals
  rw [short, ho, ← value.ofList_toList, htext]
  simp [harity, hx]

/-! ## Reading some arguments -/

theorem reads_nil (hs : s.Holds g) : s.Reads level [] g := ⟨s, rfl, hs⟩

theorem Reads.append {front back : List String} (h : s.Reads level front g)
    (hback : ∀ between : Scan, between.Holds g → between.Reads level back g') :
    s.Reads level (front ++ back) g' := by
  obtain ⟨between, hfront, hbetween⟩ := h
  obtain ⟨last, hlast, hholds⟩ := hback between hbetween
  refine ⟨last, ?_, hholds⟩
  rw [takeAll?_append, hfront]
  exact hlast

/-- An option that is given at once. -/
theorem reads_given {arg : String} (h : s.take? level arg = some ⟨g, none⟩) :
    s.Reads level [arg] g :=
  ⟨⟨g, none⟩, (bind_pure _).trans h, holds_settled g⟩

/-- An option that waits for the next argument. -/
theorem reads_supplied {arg value : String} (h : s.take? level arg = some ⟨g, some (o, none)⟩)
    (hvalue : value.toList.head? ≠ some '-') (hgive : g.give o value = .ok g') :
    s.Reads level [arg, value] g' := by
  have hsupply : take? level ⟨g, some (o, none)⟩ value = some (supply ⟨g, some (o, none)⟩ value) :=
    take?_word level rfl hvalue
  refine ⟨_, ?_, holds_supply hgive⟩
  show (s.take? level arg).bind (takeAll? level · [value]) = _
  rw [h]
  exact (bind_pure _).trans hsupply

end Scan

/-! ## Both levels -/

open Scan

theorem eq_ok_of_toOption {ε α : Type} {x : Except ε α} {a : α} (h : x.toOption = some a) :
    x = .ok a := by
  cases x <;> cases h
  rfl

theorem scanRoot_cons {s s' : Scan} {arg : String} (h : s.take? .root arg = some s')
    (rest : List String) : scanRoot s (arg :: rest) = scanRoot s' rest := by
  rw [take?] at h
  rw [scanRoot.eq_def]
  split at h
  next hshape =>
    simp only [hshape, eq_ok_of_toOption h]
    rfl
  next hshape =>
    simp only [hshape, eq_ok_of_toOption h]
    rfl
  next hshape =>
    obtain ⟨hwaits, hs⟩ := Option.ite_none_right_eq_some.mp h
    simp only [hshape, hwaits, if_true, Option.some.inj hs]
  next => cases h

theorem scanCommand_cons {c : CommandName} {s s' : Scan} {arg : String}
    (h : s.take? (.command c) arg = some s') (rest : List String) :
    scanCommand c s (arg :: rest) = scanCommand c s' rest := by
  rw [take?] at h
  rw [scanCommand.eq_def]
  split at h
  next hshape =>
    simp only [hshape, eq_ok_of_toOption h]
    rfl
  next hshape =>
    simp only [hshape, eq_ok_of_toOption h]
    rfl
  next hshape =>
    obtain ⟨hwaits, hs⟩ := Option.ite_none_right_eq_some.mp h
    simp only [hshape, hwaits, if_true, Option.some.inj hs]
  next => cases h

/-- A scan that goes on behind each argument it takes goes on behind all that it takes. -/
theorem eq_of_takeAll? {α : Type} {level : Level} {scan : Scan → List String → α}
    (hcons : ∀ {s s' arg}, s.take? level arg = some s' →
      ∀ rest, scan s (arg :: rest) = scan s' rest)
    {s s' : Scan} {args : List String} (h : s.takeAll? level args = some s') (rest : List String) :
    scan s (args ++ rest) = scan s' rest := by
  induction args generalizing s with
  | nil =>
    cases h
    rfl
  | cons arg args ih =>
    obtain ⟨between, harg, hargs⟩ := Option.bind_eq_some_iff.mp h
    rw [List.cons_append, hcons harg]
    exact ih hargs

theorem scanRoot_append {s s' : Scan} {args : List String} (h : s.takeAll? .root args = some s')
    (rest : List String) : scanRoot s (args ++ rest) = scanRoot s' rest :=
  eq_of_takeAll? scanRoot_cons h rest

theorem scanCommand_append {c : CommandName} {s s' : Scan} {args : List String}
    (h : s.takeAll? (.command c) args = some s') (rest : List String) :
    scanCommand c s (args ++ rest) = scanCommand c s' rest :=
  eq_of_takeAll? scanCommand_cons h rest

/-! ## Whole levels -/

theorem scanCommand_reads {c : CommandName} {s : Scan} {args : List String} {g : Given}
    (h : s.Reads (.command c) args g) : scanCommand c s args = .ok g := by
  obtain ⟨last, htake, -, hsettle⟩ := h
  rw [← args.append_nil, scanCommand_append htake, scanCommand.eq_def]
  simp only [hsettle]
  rfl

theorem scanRoot_reads {s : Scan} {args : List String} {g : Given} (h : s.Reads .root args g) :
    scanRoot s args = .ok (g.invocation none) := by
  obtain ⟨last, htake, -, hsettle⟩ := h
  rw [← args.append_nil, scanRoot_append htake, scanRoot.eq_def]
  simp only [hsettle]
  rfl

theorem CommandName.shape_name (c : CommandName) : shape c.name = .word := by
  cases c <;> decide

theorem CommandName.name_ne_helpWord (c : CommandName) : c.name ≠ helpWord := by
  cases c <;> decide

theorem CommandName.ofName?_name (c : CommandName) : ofName? c.name = some c := by
  cases c <;> decide

/-- A command's name where no value is waited for is the command. -/
theorem scanRoot_command {c : CommandName} {s : Scan} {front back : List String}
    {outer inner : Given} (hfront : s.Reads .root front outer)
    (hback : Scan.start.Reads (.command c) back inner) :
    scanRoot s (front ++ c.name :: back)
      = .ok ((outer.overlaidBy inner).invocation (some c)) := by
  obtain ⟨last, htake, hwaits, hsettle⟩ := hfront
  rw [scanRoot_append htake, scanRoot.eq_def]
  simp only [c.shape_name, hwaits, beq_eq_false_iff_ne.mpr c.name_ne_helpWord, c.ofName?_name,
    scanCommand_reads hback, hsettle, Bool.false_eq_true, if_false]
  rfl

end CommandLine

end StageVars

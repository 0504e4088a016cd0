import StageVars.Proofs.Reference.Reader
/-!
# StageVars.Proofs.Reference.Written -- references that are written

A reference that is written for a path is read as one to that path, whatever is in the path:
unless a parenthesis closes in the member, there is no longer path. And however the path is
taken apart, what the stage is put into is the path as a whole.

* `Cut.Fits.longest`: a cut that leaves no longer path.
* `Cut.Describes.sibling_eq`: the file of a stage beside a path.
* `parse?_written`: a written reference is read.
-/

namespace StageVars

namespace Reference

/-- The text of a reference to a path. -/
def written (path : String) (member : Option String) : String :=
  "$\x7bfile(" ++ path ++ ")" ++ member.elim "" (":" ++ ·) ++ "\x7d"

theorem toList_written (path : String) (member : Option String) :
    (written path member).toList
      = opening ++ (path.toList ++ ')' :: (memberPart (member.map String.toList) ++ ['\x7d'])) := by
  cases member with
  | none =>
    simp only [written, Option.elim_none, String.toList_append, List.append_assoc]
    rfl
  | some name =>
    simp only [written, Option.elim_some, String.toList_append, List.append_assoc]
    rfl

/-! ## The cut that is meant -/

/-- Where no parenthesis closes in the member, no other cut has a longer path. -/
theorem Cut.Fits.longest {c : Cut} {cs : List Char} (h : c.Fits cs)
    (hmember : ∀ name ∈ c.member, ')' ∉ name) : c.Longest cs := by
  refine ⟨h, fun other hother => Nat.le_of_not_lt fun hlonger => ?_⟩
  have hcs : other.path ++ other.rest = c.path ++ c.rest := by
    rw [← List.append_cancel_left_eq opening, ← h.2, ← hother.2]
  obtain ⟨mid, hpath, hrest⟩ : ∃ mid, other.path = c.path ++ mid ∧ c.rest = mid ++ other.rest := by
    rcases List.append_eq_append_iff.mp hcs with ⟨mid, hpath, -⟩ | hmid
    · rw [hpath, List.length_append] at hlonger
      omega
    · exact hmid
  cases mid with
  | nil =>
    rw [hpath, List.append_nil] at hlonger
    exact absurd hlonger (Nat.lt_irrefl _)
  | cons x mid =>
    -- the parenthesis that closes the longer path stands in the member
    obtain ⟨-, hbehind⟩ := List.cons.inj hrest
    have hparen : ')' ∈ memberPart c.member ++ ['\x7d'] := by
      rw [hbehind]
      exact List.mem_append_right _ List.mem_cons_self
    cases hm : c.member with
    | none =>
      rw [hm] at hparen
      exact absurd hparen (by decide)
    | some name =>
      rw [hm, memberPart] at hparen
      exact hmember name hm (by simpa using hparen)

theorem ofList_suffix (e : Extension) : String.ofList (suffix e) = "." ++ e.name := by
  rw [suffix, String.ofList_cons, String.ofList_toList]
  rfl

/-- The directory and the file name without its extension are the name of the path. -/
theorem Cut.Describes.name_eq {c : Cut} {r : Reference} (h : c.Describes r) :
    r.directory.getD "" ++ r.stem = String.ofList c.name := by
  obtain ⟨hpath, hextension, -, -, hbase, hstem⟩ := h
  rw [hbase, hstem, hextension, Cut.path, String.ofList_append, ofList_suffix,
    String.append_assoc, ← String.append_assoc, String.append_left_inj] at hpath
  exact hpath

/-- The stage is put between the name of a path and its extension, however the name is
divided. -/
theorem Cut.Describes.sibling_eq {c : Cut} {r : Reference} (h : c.Describes r) (stage : String) :
    r.sibling stage = String.ofList c.name ++ "." ++ stage ++ "." ++ c.extension.name := by
  rw [sibling, h.name_eq, h.2.1]

/-- The cut that a written reference means. -/
def Cut.written (name : String) (e : Extension) (member : Option String) : Cut :=
  ⟨name.toList, e, member.map String.toList⟩

theorem Cut.path_written (name : String) (e : Extension) (member : Option String) :
    (Cut.written name e member).path = (name ++ "." ++ e.name).toList := by
  rw [String.append_assoc, String.toList_append, ← ofList_suffix, String.toList_ofList]
  rfl

theorem Cut.longest_written {name : String} (hname : name ≠ "") (e : Extension)
    {member : Option String} (hmember : ∀ m ∈ member, ')' ∉ m.toList) :
    (Cut.written name e member).Longest
      (Reference.written (name ++ "." ++ e.name) member).toList := by
  refine Fits.longest ⟨?_, ?_⟩ ?_
  · rwa [Cut.written, ne_eq, String.toList_eq_nil_iff]
  · rw [toList_written, path_written]
    rfl
  · intro m hm
    obtain ⟨text, htext, rfl⟩ := Option.map_eq_some_iff.mp hm
    exact hmember text htext

/-! ## Reading what was written -/

theorem clear_written {name : String} (hname : '\n' ∉ name.toList) (e : Extension)
    {member : Option String} (hmember : ∀ m ∈ member, '\n' ∉ m.toList) :
    '\n' ∉ (written (name ++ "." ++ e.name) member).toList := by
  have hsuffix : '\n' ∉ suffix e := by cases e <;> decide
  have hrest : '\n' ∉ (Cut.written name e member).rest := by
    cases member with
    | none =>
      show '\n' ∉ [')', '\x7d']
      decide
    | some m => simpa [Cut.written, Cut.rest, memberPart] using hmember m rfl
  rw [toList_written, ← Cut.path_written name e member]
  refine clear_opening_append fun hmem => ?_
  rcases List.mem_append.mp hmem with hpath | hbehind
  · exact (List.mem_append.mp hpath).elim hname hsuffix
  · exact hrest hbehind

/-- A reference that is written for a path with a name is read, unless a line feed occurs or
a parenthesis closes in the member: it refers to that path, and the file of a stage beside
it has the stage before the extension. -/
theorem parse?_written {name : String} (hname : name ≠ "") (hclear : '\n' ∉ name.toList)
    (e : Extension) {member : Option String}
    (hmember : ∀ m ∈ member, '\n' ∉ m.toList ∧ ')' ∉ m.toList) :
    ∃ r, parse? (written (name ++ "." ++ e.name) member) = some r
      ∧ r.path = name ++ "." ++ e.name ∧ r.member = member
      ∧ ∀ stage, r.sibling stage = name ++ "." ++ stage ++ "." ++ e.name := by
  have hlongest := Cut.longest_written hname e fun m hm => (hmember m hm).2
  have hclear := clear_written hclear e fun m hm => (hmember m hm).1
  obtain ⟨r, hr⟩ := Option.isSome_iff_exists.mp
    ((parse?_isSome_iff _).mpr ⟨hclear, _, hlongest.1⟩)
  obtain ⟨-, c, hc, hdescribes⟩ := parse?_reads hr
  obtain rfl := hc.unique hlongest
  refine ⟨r, hr, ?_, ?_, fun stage => ?_⟩
  · rw [hdescribes.1, Cut.path_written, String.ofList_toList]
  · rw [hdescribes.2.2.1, Cut.written, Option.map_map]
    cases member with
    | none => rfl
    | some m => exact congrArg some String.ofList_toList
  · rw [hdescribes.sibling_eq, Cut.written, String.ofList_toList]

end Reference

end StageVars

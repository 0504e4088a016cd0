import StageVars.Proofs.Reference.Written
/-!
# StageVars.Proofs.Reference.Slashes -- slashes that stay in a file name

A directory ends at a slash that has something on both sides of it within the name. So the slash
of the root does not end a directory, and neither does a slash right before the extension. The
first stays in the file name if it is the only slash, and the second always does.

* `Cut.Directory.mem_file_iff`: when a slash stays in the file name.
* `separated_iff`: the paths whose slashes all go to the directory.
-/

namespace StageVars

namespace Reference

/-! ## Slashes behind the directory -/

/-- A member of a list stands somewhere for the last time. -/
theorem exists_last_of_mem {α : Type} {a : α} {as : List α} (h : a ∈ as) :
    ∃ front back, as = front ++ a :: back ∧ a ∉ back := by
  obtain ⟨back, front, hsplit, hback⟩ := List.eq_append_cons_of_mem (List.mem_reverse.mpr h)
  refine ⟨front.reverse, back.reverse, ?_, by rwa [List.mem_reverse]⟩
  rw [← as.reverse_reverse, hsplit]
  simp

variable {c : Cut} {directory? : Option (List Char)} {file : List Char}

/-- Behind the longest directory, a slash is the first character of the whole name or the last. -/
theorem Cut.Directory.slash_at_end (h : c.Directory directory?)
    (hname : c.name = directory?.getD [] ++ file) {front back : List Char}
    (hfile : file = front ++ '/' :: back) : directory?.getD [] ++ front = [] ∨ back = [] := by
  refine Decidable.or_iff_not_not_and_not.mpr fun hboth => ?_
  -- otherwise a longer directory would end there
  have hpart : c.DirectoryPart (directory?.getD [] ++ front ++ ['/']) :=
    (c.directoryPart_iff _).mpr
      ⟨directory?.getD [] ++ front, back, rfl, by rw [hname, hfile, List.append_assoc], hboth⟩
  cases directory? with
  | none => exact h _ hpart
  | some dir =>
    have hle := h.2 _ hpart
    simp only [Option.getD_some, List.length_append, List.length_cons] at hle
    omega

theorem Cut.Directory.file_ne_nil (h : c.Directory directory?)
    (hname : c.name = directory?.getD [] ++ file) (hnonempty : c.name ≠ []) : file ≠ [] := by
  rintro rfl
  cases directory? with
  | none => exact hnonempty hname
  | some dir =>
    obtain ⟨d, rest, rfl, hname', -, hrest⟩ := (c.directoryPart_iff dir).mp h.1
    rw [hname, Option.getD_some, List.append_nil] at hname'
    exact hrest (List.cons.inj (List.append_cancel_left hname')).2.symm

/-- A directory that starts with the slash of the root has another slash. -/
theorem Cut.Directory.eq_none_of_root (h : c.Directory directory?) {back : List Char}
    (hroot : c.name = '/' :: back) (hback : '/' ∉ back) : directory? = none := by
  cases directory? with
  | none => rfl
  | some dir =>
    obtain ⟨d, rest, -, hname, hd, -⟩ := (c.directoryPart_iff dir).mp h.1
    obtain ⟨x, d', rfl⟩ := List.exists_cons_of_ne_nil hd
    obtain ⟨-, rfl⟩ := List.cons.inj (hroot.symm.trans hname)
    exact absurd (List.mem_append_right d' List.mem_cons_self) hback

/-- A slash stays behind the directory exactly if the name ends with it, or starts with it and
has no other. -/
theorem Cut.Directory.mem_file_iff (h : c.Directory directory?)
    (hname : c.name = directory?.getD [] ++ file) (hnonempty : c.name ≠ []) :
    '/' ∈ file
      ↔ (∃ back, c.name = '/' :: back ∧ '/' ∉ back) ∨ ∃ front, c.name = front ++ ['/'] := by
  constructor
  · intro hmem
    obtain ⟨front, back, hfile, hback⟩ := exists_last_of_mem hmem
    rw [hname, hfile, ← List.append_assoc]
    rcases h.slash_at_end hname hfile with hfront | rfl
    · exact Or.inl ⟨back, by rw [hfront, List.nil_append], hback⟩
    · exact Or.inr ⟨_, rfl⟩
  · rintro (⟨back, hroot, hback⟩ | ⟨front, hend⟩)
    · rw [h.eq_none_of_root hroot hback, Option.getD_none, List.nil_append] at hname
      rw [← hname, hroot]
      exact List.mem_cons_self
    · -- the file name is not empty, so it ends as the name does
      have hfile := h.file_ne_nil hname hnonempty
      rw [hname, ← List.dropLast_concat_getLast hfile, ← List.append_assoc] at hend
      obtain ⟨-, hlast⟩ := List.append_inj' hend rfl
      rw [← (List.cons.inj hlast).1]
      exact List.getLast_mem hfile

/-! ## Slashes of a reference -/

/-- The only slash of a path is its first character. -/
def OnlyRooted (path : String) : Prop := ∃ file, path = "/" ++ file ∧ '/' ∉ file.toList

/-- Between the last slash of a path and its extension there is no name. -/
def Nameless (path : String) (e : Extension) : Prop := ∃ front, path = front ++ "/." ++ e.name

/-- There is a directory if there is a slash at all, and no slash in the file name. -/
def Separated (r : Reference) : Prop :=
  (r.directory.isSome ↔ '/' ∈ r.path.toList) ∧ '/' ∉ r.baseName.toList ∧ '/' ∉ r.stem.toList

instance (r : Reference) : Decidable r.Separated :=
  inferInstanceAs (Decidable ((_ ↔ _) ∧ _ ∧ _))

theorem slash_not_mem_suffix (e : Extension) : '/' ∉ suffix e := by cases e <;> decide

theorem Cut.onlyRooted_iff (hnonempty : c.name ≠ []) :
    OnlyRooted (String.ofList c.path) ↔ ∃ back, c.name = '/' :: back ∧ '/' ∉ back := by
  constructor
  · rintro ⟨file, hpath, hfile⟩
    rw [← String.toList_inj, String.toList_ofList, String.toList_append, path] at hpath
    obtain ⟨x, back, hname⟩ := List.exists_cons_of_ne_nil hnonempty
    rw [hname] at hpath
    obtain ⟨rfl, hback⟩ := List.cons.inj hpath
    refine ⟨back, hname, fun hmem => hfile ?_⟩
    have htext : file.toList = back ++ suffix c.extension := hback.symm
    rw [htext]
    exact List.mem_append_left _ hmem
  · rintro ⟨back, hname, hback⟩
    refine ⟨String.ofList (back ++ suffix c.extension), ?_, ?_⟩
    · rw [path, hname, ← String.toList_inj]
      simp
    · rw [String.toList_ofList, List.mem_append]
      exact not_or.mpr ⟨hback, slash_not_mem_suffix _⟩

theorem Cut.nameless_iff :
    Nameless (String.ofList c.path) c.extension ↔ ∃ front, c.name = front ++ ['/'] := by
  have hsuffix (front : List Char) : (String.ofList front ++ "/." ++ c.extension.name).toList
      = front ++ ['/'] ++ suffix c.extension := by
    simp [suffix]
  constructor
  · rintro ⟨front, hpath⟩
    rw [← String.ofList_toList (s := front), ← String.toList_inj, hsuffix, String.toList_ofList,
      path, List.append_cancel_right_eq] at hpath
    exact ⟨front.toList, hpath⟩
  · rintro ⟨front, hname⟩
    refine ⟨String.ofList front, ?_⟩
    rw [← String.toList_inj, hsuffix, String.toList_ofList, path, hname]

theorem Cut.Describes.directory_append_stem {r : Reference} (h : c.Describes r) :
    c.name = (r.directory.map String.toList).getD [] ++ r.stem.toList := by
  have hname := congrArg String.toList h.name_eq
  rw [String.toList_ofList, String.toList_append] at hname
  rw [← hname]
  cases r.directory <;> rfl

theorem Cut.Describes.slash_mem_baseName_iff {r : Reference} (h : c.Describes r) :
    '/' ∈ r.baseName.toList ↔ '/' ∈ r.stem.toList := by
  have hsuffix : '/' ∉ ("." ++ r.extension.name).toList := by
    rw [← ofList_suffix, String.toList_ofList]
    exact slash_not_mem_suffix _
  rw [h.2.2.2.2.2, String.append_assoc, String.toList_append, List.mem_append,
    or_iff_left hsuffix]

/-- If no slash is in the file name, there is a directory exactly if there is a slash. -/
theorem Cut.Describes.directory_isSome_iff {r : Reference} (h : c.Describes r)
    (hstem : '/' ∉ r.stem.toList) : r.directory.isSome ↔ '/' ∈ r.path.toList := by
  obtain ⟨hpath, -, -, hdirectory, -⟩ := id h
  have hname := h.directory_append_stem
  have hiff : '/' ∈ r.path.toList ↔ '/' ∈ (r.directory.map String.toList).getD [] := by
    rw [hpath, String.toList_ofList, Cut.path, List.mem_append,
      or_iff_left (slash_not_mem_suffix _), hname, List.mem_append, or_iff_left hstem]
  rw [hiff]
  cases hdir : r.directory with
  | none => simp
  | some dir =>
    rw [hdir] at hdirectory
    obtain ⟨d, -, hslash, -⟩ := hdirectory.1
    rw [Option.map_some, Option.getD_some, hslash]
    simp

/-- **All slashes go to the directory, but for two kinds of paths.** Of a reference that is read,
the file name has no slash, and there is a directory as soon as there is a slash, exactly if the
path does not have the slash of the root as its only one, and does not have a slash right before
its extension. -/
theorem separated_iff {s : String} {r : Reference} (h : parse? s = some r) :
    r.Separated ↔ ¬ OnlyRooted r.path ∧ ¬ Nameless r.path r.extension := by
  obtain ⟨-, c, ⟨⟨hnonempty, -⟩, -⟩, hdescribes⟩ := parse?_reads h
  obtain ⟨hpath, hextension, -, hdirectory, -⟩ := id hdescribes
  have hstem : '/' ∈ r.stem.toList ↔ OnlyRooted r.path ∨ Nameless r.path r.extension := by
    rw [hpath, hextension, c.onlyRooted_iff hnonempty, c.nameless_iff]
    exact hdirectory.mem_file_iff hdescribes.directory_append_stem hnonempty
  rw [← not_or, ← hstem, Separated, hdescribes.slash_mem_baseName_iff, and_self]
  constructor
  · rintro ⟨-, hfree⟩
    exact hfree
  · intro hfree
    exact ⟨hdescribes.directory_isSome_iff hfree, hfree⟩

/-- A reference to a file two directories below the root, one of them without a name. -/
def belowRoot : Reference :=
  ⟨"/etc//app.x.yml", some "/etc//", "app.x.yml", "app.x", .yml, some "a/b"⟩

/-- Below the root, and whatever the member, all slashes go to the directory. -/
theorem separated_belowRoot :
    parse? (written "/etc//app.x.yml" (some "a/b")) = some belowRoot ∧ belowRoot.Separated
      ∧ ¬ OnlyRooted belowRoot.path ∧ ¬ Nameless belowRoot.path belowRoot.extension := by
  have hparse : parse? (written "/etc//app.x.yml" (some "a/b")) = some belowRoot := by
    decide +kernel
  have hseparated : belowRoot.Separated := by decide +kernel
  exact ⟨hparse, hseparated, (separated_iff hparse).mp hseparated⟩

/-- A reference to a file at the root. -/
def atRoot : Reference := ⟨"/a.yml", none, "/a.yml", "/a", .yml, none⟩

/-- At the root the slash stays in the file name, and there is no directory. -/
theorem not_separated_atRoot :
    parse? (written "/a.yml" none) = some atRoot ∧ ¬ atRoot.Separated := by
  decide +kernel

end Reference

end StageVars

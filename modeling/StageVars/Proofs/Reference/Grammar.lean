import StageVars.Reference
/-!
# StageVars.Proofs.Reference.Grammar -- the ways to read a text as a reference

A text may be cut in several ways into a path, a closing parenthesis and a member. A
`Cut` is one such way, and `Reads` says which of them a reference takes: the one with the
longest path, and of that path the longest directory that leaves a name.

* `Cut.path_length_le`: the longest name gives the longest path.
* `Cut.directoryPart_iff`: a directory ends at a slash of the name.
* `Cut.Describes.unique`: a cut is described by one reference.
-/

namespace StageVars

namespace Reference

/-! ## Cuts -/

/-- What stands behind the name of a path. -/
def suffix (e : Extension) : List Char := '.' :: e.name.toList

/-- What stands for a member. -/
def memberPart : Option (List Char) → List Char
  | none => []
  | some name => ':' :: name

/-- One way to cut a text: the path without its extension, the extension, the member. -/
structure Cut where
  name : List Char
  extension : Extension
  member : Option (List Char)

namespace Cut

/-- The path of a cut. -/
def path (c : Cut) : List Char := c.name ++ suffix c.extension

/-- What a cut leaves behind its path. -/
def rest (c : Cut) : List Char := ')' :: (memberPart c.member ++ ['\x7d'])

/-- A text can be cut this way, and the name is not empty. -/
def Fits (c : Cut) (cs : List Char) : Prop := c.name ≠ [] ∧ cs = opening ++ (c.path ++ c.rest)

/-- No other cut of the text has a longer path. -/
def Longest (c : Cut) (cs : List Char) : Prop :=
  c.Fits cs ∧ ∀ other : Cut, other.Fits cs → other.path.length ≤ c.path.length

/-- A part of the path that could be its directory: up to a slash that is neither the
first character nor the one before the extension. -/
def DirectoryPart (c : Cut) (dir : List Char) : Prop :=
  ∃ d file, dir = d ++ ['/'] ∧ c.path = dir ++ file ∧ d ≠ [] ∧ file ≠ suffix c.extension

/-- The longest part of the path that could be its directory, if there is one. -/
def Directory (c : Cut) : Option (List Char) → Prop
  | none => ∀ dir, ¬ c.DirectoryPart dir
  | some dir => c.DirectoryPart dir ∧ ∀ other, c.DirectoryPart other → other.length ≤ dir.length

theorem fits_opening_iff (c : Cut) (body : List Char) :
    c.Fits (opening ++ body) ↔ c.name ≠ [] ∧ body = c.path ++ c.rest := by
  rw [Fits, List.append_cancel_left_eq]

end Cut

/-- A reference holds the parts of a cut, and of its path the longest directory. -/
def Cut.Describes (c : Cut) (r : Reference) : Prop :=
  r.path = String.ofList c.path ∧ r.extension = c.extension
    ∧ r.member = c.member.map String.ofList
    ∧ c.Directory (r.directory.map String.toList)
    ∧ r.path = r.directory.getD "" ++ r.baseName
    ∧ r.baseName = r.stem ++ "." ++ r.extension.name

/-- The reference that a text is: it describes the cut with the longest path. -/
def Reads (s : String) (r : Reference) : Prop :=
  '\n' ∉ s.toList ∧ ∃ c : Cut, c.Longest s.toList ∧ c.Describes r

/-! ## Longest cuts -/

/-- What is no part of an extension stands in the name. -/
theorem name_eq_of_append_suffix {e : Extension} {x : Char} {name front back : List Char}
    (hx : x ∉ suffix e) (h : name ++ suffix e = front ++ x :: back) :
    ∃ file, name = front ++ x :: file ∧ back = file ++ suffix e := by
  rcases List.append_eq_append_iff.mp h with ⟨mid, -, hsuffix⟩ | ⟨mid, hname, hmid⟩
  · exact absurd (hsuffix ▸ by simp) hx
  · cases mid with
    | nil =>
      rw [List.nil_append] at hmid
      exact absurd (hmid ▸ List.mem_cons_self) hx
    | cons y file =>
      obtain ⟨rfl, rfl⟩ := List.cons.inj hmid
      exact ⟨file, hname, rfl⟩

/-- A longer path has the shorter one in its name: the parenthesis behind the shorter one
is no part of an extension. -/
theorem Cut.path_length_lt_name_length {c other : Cut} {cs : List Char} (h : c.Fits cs)
    (hother : other.Fits cs) (hlonger : c.path.length < other.path.length) :
    c.path.length < other.name.length := by
  have hparen : ')' ∉ suffix other.extension := by cases other.extension <;> decide
  have hcs : c.path ++ c.rest = other.path ++ other.rest := by
    rw [← List.append_cancel_left_eq opening, ← h.2, ← hother.2]
  rcases List.append_eq_append_iff.mp hcs with ⟨mid, hpath, hrest⟩ | ⟨mid, hpath, -⟩
  · cases mid with
    | nil =>
      rw [hpath, List.append_nil] at hlonger
      exact absurd hlonger (Nat.lt_irrefl _)
    | cons x mid =>
      -- the longer path goes on with the parenthesis that closes the shorter one
      obtain ⟨rfl, -⟩ := List.cons.inj hrest
      obtain ⟨file, hname, -⟩ := name_eq_of_append_suffix hparen hpath
      rw [hname, List.length_append, List.length_cons]
      omega
  · rw [hpath, List.length_append] at hlonger
    omega

/-- The longest name gives the longest path. -/
theorem Cut.path_length_le {c other : Cut} {cs : List Char} (h : c.Fits cs)
    (hother : other.Fits cs) (hname : other.name.length ≤ c.name.length) :
    other.path.length ≤ c.path.length := by
  refine Nat.le_of_not_lt fun hlonger => ?_
  have hlt := path_length_lt_name_length h hother hlonger
  have hle : c.name.length ≤ c.path.length := by
    rw [path, List.length_append]
    exact Nat.le_add_right _ _
  omega

/-- The cut that has `dir` before the name of `c`. -/
def Cut.behind (c : Cut) (dir : List Char) : Cut := { c with name := dir ++ c.name }

@[simp] theorem Cut.path_behind (c : Cut) (dir : List Char) :
    (c.behind dir).path = dir ++ c.path := List.append_assoc _ _ _

/-- The longest cut of a text is the longest behind any directory, too. -/
theorem Cut.Longest.behind {c : Cut} {body : List Char} (h : c.Longest (opening ++ body))
    (dir : List Char) : (c.behind dir).Longest (opening ++ (dir ++ body)) := by
  obtain ⟨hfits, hlongest⟩ := h
  rw [fits_opening_iff] at hfits
  have hfits' : (c.behind dir).Fits (opening ++ (dir ++ body)) := by
    rw [fits_opening_iff, path_behind, hfits.2, List.append_assoc]
    exact ⟨List.append_ne_nil_of_right_ne_nil dir hfits.1, rfl⟩
  refine ⟨hfits', fun other hother => Nat.le_of_not_lt fun hlonger => ?_⟩
  have hlt := path_length_lt_name_length hfits' hother hlonger
  rw [path_behind, List.length_append] at hlonger hlt
  obtain ⟨hname, hbody⟩ := (fits_opening_iff _ _).mp hother
  -- the name of the other cut starts with the directory, too
  rw [path, List.append_assoc] at hbody
  obtain ⟨name, hother', hbehind⟩ : ∃ name, other.name = dir ++ name
      ∧ body = name ++ (suffix other.extension ++ other.rest) := by
    rcases List.append_eq_append_iff.mp hbody with ⟨name, hname, hrest⟩ | ⟨mid, hdir, -⟩
    · exact ⟨name, hname, hrest⟩
    · rw [hdir, List.length_append] at hlt
      omega
  have hnonempty : name ≠ [] := by
    rintro rfl
    rw [hother', List.append_nil] at hlt
    omega
  have hle := hlongest ⟨name, other.extension, other.member⟩
    ((fits_opening_iff _ _).mpr ⟨hnonempty, by rw [hbehind, path, List.append_assoc]; rfl⟩)
  have hpath : other.path = dir ++ Cut.path ⟨name, other.extension, other.member⟩ := by
    rw [path, path, hother', List.append_assoc]
  rw [hpath, List.length_append] at hlonger
  omega

/-! ## Directories -/

/-- A part of the path that could be its directory ends with a slash in the name, with
something on both sides of it. -/
theorem Cut.directoryPart_iff (c : Cut) (dir : List Char) :
    c.DirectoryPart dir
      ↔ ∃ d file, dir = d ++ ['/'] ∧ c.name = d ++ '/' :: file ∧ d ≠ [] ∧ file ≠ [] := by
  have hslash : '/' ∉ suffix c.extension := by cases c.extension <;> decide
  constructor
  · rintro ⟨d, file, rfl, hpath, hd, hfile⟩
    rw [path, List.append_assoc, List.singleton_append] at hpath
    obtain ⟨file', hname, rfl⟩ := name_eq_of_append_suffix hslash hpath
    refine ⟨d, file', rfl, hname, hd, ?_⟩
    rintro rfl
    exact hfile rfl
  · rintro ⟨d, file, rfl, hname, hd, hfile⟩
    refine ⟨d, file ++ suffix c.extension, rfl, ?_, hd, ?_⟩
    · rw [path, hname]
      simp
    · simpa using hfile

/-! ## The reference of a cut -/

theorem Cut.Directory.unique {c : Cut} {dir? dir?' : Option (List Char)} (h : c.Directory dir?)
    (h' : c.Directory dir?') : dir? = dir?' := by
  cases dir? with
  | none =>
    cases dir?' with
    | none => rfl
    | some dir => exact absurd h'.1 (h dir)
  | some dir =>
    cases dir?' with
    | none => exact absurd h.1 (h' dir)
    | some dir' =>
      obtain ⟨_, _, _, hpath, -⟩ := h.1
      obtain ⟨_, _, _, hpath', -⟩ := h'.1
      have hlength : dir.length = dir'.length := Nat.le_antisymm (h'.2 dir h.1) (h.2 dir' h'.1)
      rw [(List.append_inj (hpath.symm.trans hpath') hlength).1]

/-- A cut is described by one reference only. -/
theorem Cut.Describes.unique {c : Cut} {r r' : Reference} (h : c.Describes r)
    (h' : c.Describes r') : r = r' := by
  obtain ⟨hpath, hextension, hmember, hdirectory, hbase, hstem⟩ := h
  obtain ⟨hpath', hextension', hmember', hdirectory', hbase', hstem'⟩ := h'
  have hdir : r.directory = r'.directory :=
    Option.map_injective (fun _ _ => String.toList_inj.mp) (hdirectory.unique hdirectory')
  have hbaseName : r.baseName = r'.baseName := by
    rw [← hpath', hbase, hbase', hdir, String.append_right_inj] at hpath
    exact hpath
  have hstemName : r.stem = r'.stem := by
    rw [hstem, hstem', hextension, hextension', String.append_left_inj,
      String.append_left_inj] at hbaseName
    exact hbaseName
  cases r
  cases r'
  simp_all

/-- The reference made of a cut, a directory and a file name. -/
def Cut.reference (c : Cut) (directory? : Option (List Char)) (file : List Char) : Reference where
  path := String.ofList c.path
  directory := directory?.map String.ofList
  baseName := String.ofList (file ++ suffix c.extension)
  stem := String.ofList file
  extension := c.extension
  member := c.member.map String.ofList

theorem Cut.describes_reference {c : Cut} {directory? : Option (List Char)} {file : List Char}
    (hdirectory : c.Directory directory?) (hname : c.name = directory?.getD [] ++ file) :
    c.Describes (c.reference directory? file) := by
  have hdir : (directory?.map String.ofList).getD "" = String.ofList (directory?.getD []) := by
    cases directory? <;> rfl
  refine ⟨rfl, rfl, rfl, ?_, ?_, ?_⟩
  · simpa [reference, Option.map_map] using hdirectory
  · simp only [reference, hdir, ← String.ofList_append, path, hname, List.append_assoc]
  · simp [reference, suffix, String.append_assoc]

end Reference

end StageVars

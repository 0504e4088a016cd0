import StageVars.Proofs.Reference.Written
/-!
# StageVars.Proofs.Reference.RoundTrip -- references taken apart and put together

What is read as a reference is the text that is written for its path and its member, so that
nothing of it is lost; and the path is the directory, the file name and the extension one after
the other. The other way round, parts that keep to a few rules are found again in the text that is
put together from them: a directory that ends with a slash, a file name without one, and a member
in which no parenthesis closes.

* `Cut.Describes.eq_written`: the text of a reference that was read.
* `Parts`: what a reference can be put together from.
* `parse?_round_trip`: both directions.
-/

namespace StageVars

namespace Reference

/-! ## From the text to its parts -/

/-- A reference is written as the text that it was read from. -/
theorem Cut.Describes.eq_written {s : String} {c : Cut} {r : Reference} (h : c.Describes r)
    (hfits : c.Fits s.toList) : s = Reference.written r.path r.member := by
  obtain ⟨hpath, -, hmember, -⟩ := h
  have htext : (c.member.map String.ofList).map String.toList = c.member := by
    cases c.member <;> simp
  rw [← String.toList_inj, toList_written, hpath, hmember, htext, String.toList_ofList]
  exact hfits.2

/-! ## From the parts to the text -/

/-- Parts that a reference can be put together from. -/
structure Parts where
  directory : Option String
  stem : String
  extension : Extension
  member : Option String
  /-- A directory ends with a slash that has something before it. -/
  directory_spec : ∀ dir ∈ directory, '\n' ∉ dir.toList ∧ ∃ front, front ≠ "" ∧ dir = front ++ "/"
  /-- A file name is not empty and has no slash. -/
  stem_spec : stem ≠ "" ∧ '\n' ∉ stem.toList ∧ '/' ∉ stem.toList
  /-- No parenthesis closes in a member. -/
  member_spec : ∀ m ∈ member, '\n' ∉ m.toList ∧ ')' ∉ m.toList

namespace Parts

variable (p : Parts)

/-- The name of the path: the directory and the file name. -/
def name : String := p.directory.getD "" ++ p.stem

/-- The text that is put together from some parts. -/
def text : String := written (p.name ++ "." ++ p.extension.name) p.member

/-- The reference that has some parts. -/
def reference : Reference where
  path := p.name ++ "." ++ p.extension.name
  directory := p.directory
  baseName := p.stem ++ "." ++ p.extension.name
  stem := p.stem
  extension := p.extension
  member := p.member

theorem name_ne_empty : p.name ≠ "" := by
  intro hempty
  rw [name, String.append_eq_empty_iff] at hempty
  exact p.stem_spec.1 hempty.2

theorem clear_name : '\n' ∉ p.name.toList := by
  rw [name, String.toList_append, List.mem_append]
  refine not_or.mpr ⟨?_, p.stem_spec.2.1⟩
  cases hdir : p.directory with
  | none => simp
  | some dir => exact (p.directory_spec dir hdir).1

/-- The cut that is meant. -/
def cut : Cut := Cut.written p.name p.extension p.member

end Parts

/-- A directory before a file name without a slash is the longest. -/
theorem Cut.directory_of_clear_file {c : Cut} {directory? : Option (List Char)} {file : List Char}
    (hname : c.name = directory?.getD [] ++ file) (hnonempty : file ≠ []) (hfile : '/' ∉ file)
    (hdirectory : ∀ dir ∈ directory?, ∃ d, d ≠ [] ∧ dir = d ++ ['/']) :
    c.Directory directory? := by
  cases directory? with
  | none =>
    intro dir hpart
    obtain ⟨d, rest, -, hsplit, -⟩ := (c.directoryPart_iff dir).mp hpart
    rw [hname, Option.getD_none, List.nil_append] at hsplit
    rw [hsplit] at hfile
    exact hfile (List.mem_append_right d List.mem_cons_self)
  | some dir =>
    obtain ⟨d, hd, rfl⟩ := hdirectory dir rfl
    rw [Option.getD_some] at hname
    refine ⟨(c.directoryPart_iff _).mpr ⟨d, file, rfl, by simp [hname], hd, hnonempty⟩, ?_⟩
    intro other hother
    obtain ⟨d', rest, rfl, hsplit, -⟩ := (c.directoryPart_iff other).mp hother
    -- the slash that ends the other directory is not in the file name
    rw [hname] at hsplit
    rcases List.append_eq_append_iff.mp hsplit with ⟨mid, -, hmid⟩ | ⟨mid, hmid, hrest⟩
    · rw [hmid] at hfile
      exact absurd (List.mem_append_right mid List.mem_cons_self) hfile
    · cases mid with
      | nil =>
        rw [List.nil_append] at hrest
        rw [← hrest] at hfile
        exact absurd List.mem_cons_self hfile
      | cons x mid =>
        rw [hmid]
        simp

namespace Parts

variable (p : Parts)

theorem directory_cut : p.cut.Directory (p.directory.map String.toList) := by
  have hname : p.cut.name = (p.directory.map String.toList).getD [] ++ p.stem.toList := by
    show p.name.toList = _
    rw [name, String.toList_append]
    cases p.directory <;> rfl
  refine Cut.directory_of_clear_file hname ?_ p.stem_spec.2.2 ?_
  · rw [ne_eq, String.toList_eq_nil_iff]
    exact p.stem_spec.1
  · intro dir hdir
    obtain ⟨text, htext, rfl⟩ := Option.map_eq_some_iff.mp hdir
    obtain ⟨-, front, hfront, rfl⟩ := p.directory_spec text htext
    exact ⟨front.toList, by rwa [ne_eq, String.toList_eq_nil_iff], String.toList_append⟩

theorem describes_reference : p.cut.Describes p.reference := by
  refine ⟨?_, rfl, ?_, p.directory_cut, ?_, rfl⟩
  · rw [cut, Cut.path_written, String.ofList_toList]
    rfl
  · show p.member = (p.member.map String.toList).map String.ofList
    cases p.member <;> simp
  · simp only [reference, name, String.append_assoc]

/-- What is put together from parts is read as them. -/
theorem parse?_text : parse? p.text = some p.reference := by
  have hclear := clear_written p.clear_name p.extension fun m hm => (p.member_spec m hm).1
  have hlongest :=
    Cut.longest_written p.name_ne_empty p.extension fun m hm => (p.member_spec m hm).2
  exact (parse?_eq_some_iff _ _).mpr ⟨hclear, p.cut, hlongest, p.describes_reference⟩

end Parts

/-- **References round-trip.** What is read as a reference is the text that is written for its
path and its member; its path is the directory before the file name, which ends with the
extension, and the file of a stage has the stage put in right before that. And parts that a
reference can be put together from are exactly what is read from the text put together. -/
theorem parse?_round_trip :
    (∀ s r, parse? s = some r →
      s = written r.path r.member
      ∧ r.path = r.directory.getD "" ++ r.baseName
      ∧ r.baseName = r.stem ++ "." ++ r.extension.name
      ∧ ∃ name, r.path = name ++ "." ++ r.extension.name
        ∧ ∀ stage, r.sibling stage = name ++ "." ++ stage ++ "." ++ r.extension.name)
    ∧ ∀ p : Parts, parse? p.text = some p.reference := by
  refine ⟨?_, Parts.parse?_text⟩
  intro s r h
  obtain ⟨-, c, hlongest, hdescribes⟩ := parse?_reads h
  obtain ⟨-, hextension, -, -, hpath, hbase⟩ := id hdescribes
  refine ⟨hdescribes.eq_written hlongest.1, hpath, hbase, String.ofList c.name, ?_, ?_⟩
  · rw [hpath, hbase, ← hdescribes.name_eq]
    simp only [String.append_assoc]
  · intro stage
    rw [hdescribes.sibling_eq, hextension]

/-- Parts full of the characters that divide a reference. -/
def crowded : Parts where
  directory := some "./a.js)/:b/"
  stem := "c)\x7d:.yml"
  extension := .json
  member := some "x.yml:\x7d/"
  directory_spec := by
    rintro _ ⟨⟩
    exact ⟨by decide, "./a.js)/:b", by decide, rfl⟩
  stem_spec := by decide
  member_spec := by
    rintro _ ⟨⟩
    decide

/-- They are found again, and the stage goes to its place. -/
theorem parse?_round_trip_crowded :
    parse? crowded.text = some crowded.reference
      ∧ crowded.text = written "./a.js)/:b/c)\x7d:.yml.json" (some "x.yml:\x7d/")
      ∧ crowded.reference.sibling "dev" = "./a.js)/:b/c)\x7d:.yml.dev.json" := by
  have hread := parse?_round_trip.2 crowded
  obtain ⟨htext, -, -, name, hpath, hsibling⟩ := parse?_round_trip.1 _ _ hread
  -- the name that the stage is put behind is the one that was put together
  have hname : crowded.name = name := by
    have hwhole : crowded.name ++ "." ++ crowded.extension.name
        = name ++ "." ++ crowded.extension.name := hpath
    rwa [String.append_left_inj, String.append_left_inj] at hwhole
  refine ⟨hread, htext, ?_⟩
  rw [hsibling, ← hname]
  decide

end Reference

end StageVars

import StageVars.Proofs.Compose.Resolution
import StageVars.Proofs.Files.Contents
import StageVars.Proofs.Reference.RoundTrip
/-!
# StageVars.Proofs.Compose.Members -- what a reference's member is good for

A member may hold slashes, parentheses and whole file names, and the reader of references tries
all of them before it settles for a path. But once two references have the same path, they are
taken apart in the same way and composed in the same way, whatever their members are.

* `Cut.eq_of_path_eq`: a path has one name and one extension.
* `eq_of_parse?_of_path_eq`: references with one path differ in their members only.
* `value_members_inert`: they are composed alike.
-/

namespace StageVars

namespace Reference

/-- The path of a cut is split again into its name and its extension. -/
theorem Cut.splitExtension?_path {c : Cut} (h : c.name ≠ []) :
    splitExtension? c.path.reverse = some (c.name.reverse, c.extension) := by
  refine (splitExtension?_eq_some_iff _ _ _).mpr ⟨?_, ?_⟩
  · rwa [ne_eq, List.reverse_eq_nil_iff]
  · rw [path, List.reverse_append]

/-- Cuts with one path differ in their members only. -/
theorem Cut.eq_of_path_eq {c c' : Cut} (h : c.name ≠ []) (h' : c'.name ≠ [])
    (hpath : c.path = c'.path) : c' = { c with member := c'.member } := by
  have hsplit := splitExtension?_path h
  rw [hpath, splitExtension?_path h', Option.some.injEq, Prod.mk.injEq, List.reverse_inj] at hsplit
  obtain ⟨hname, hextension⟩ := hsplit
  cases c'
  simp_all

/-- The member of a cut is described by the member of the reference alone. -/
theorem Cut.Describes.withMember {c : Cut} {r : Reference} (h : c.Describes r)
    (m : Option (List Char)) :
    Cut.Describes { c with member := m } { r with member := m.map String.ofList } := by
  obtain ⟨hpath, hextension, -, hdirectory, hbase, hstem⟩ := h
  exact ⟨hpath, hextension, rfl, hdirectory, hbase, hstem⟩

/-- References that are read and have one path differ in their members only. -/
theorem eq_of_parse?_of_path_eq {s s' : String} {r r' : Reference} (h : parse? s = some r)
    (h' : parse? s' = some r') (hpath : r.path = r'.path) :
    r' = { r with member := r'.member } := by
  obtain ⟨-, c, ⟨⟨hname, -⟩, -⟩, hdescribes⟩ := parse?_reads h
  obtain ⟨-, c', ⟨⟨hname', -⟩, -⟩, hdescribes'⟩ := parse?_reads h'
  have hcut : c' = { c with member := c'.member } := by
    refine Cut.eq_of_path_eq hname hname' ?_
    rwa [hdescribes.1, hdescribes'.1, String.ofList_inj] at hpath
  have hmember : r'.member = c'.member.map String.ofList := hdescribes'.2.2.1
  rw [hcut] at hdescribes'
  rw [hmember]
  exact hdescribes'.unique (hdescribes.withMember c'.member)

end Reference

namespace Compose

open Composing

/-- **The member of a reference plays no part.** Two texts that are read as references with the
same path, whatever their members, are taken apart alike: directory, file name with and without
extension, extension, and the files of all stages beside them are the same. For any stage, strategy,
stem and files they are composed with the same questions in the same order, and come to the same
change or the same failure. -/
theorem value_members_inert {text text' : String} {r r' : Reference}
    (h : Reference.parse? text = some r) (h' : Reference.parse? text' = some r')
    (hpath : r.path = r'.path) :
    (r'.directory = r.directory ∧ r'.baseName = r.baseName ∧ r'.stem = r.stem
      ∧ r'.extension = r.extension ∧ ∀ stage, r'.sibling stage = r.sibling stage)
    ∧ ∀ files stem stage strategy,
      calls files (value (some (.string text')) stem stage strategy)
          = calls files (value (some (.string text)) stem stage strategy)
        ∧ outcome files (value (some (.string text')) stem stage strategy)
          = outcome files (value (some (.string text)) stem stage strategy) := by
  have hsame := Reference.eq_of_parse?_of_path_eq h h' hpath
  have hsibling (stage : String) : r'.sibling stage = r.sibling stage := by
    rw [hsame]
    rfl
  refine ⟨?_, fun files stem stage strategy => ?_⟩
  · rw [hsame]
    exact ⟨rfl, rfl, rfl, rfl, fun _ => rfl⟩
  · show calls files (referenced text' stage strategy)
        = calls files (referenced text stage strategy)
      ∧ outcome files (referenced text' stage strategy)
        = outcome files (referenced text stage strategy)
    rw [calls_referenced files h, calls_referenced files h', outcome_referenced files h,
      outcome_referenced files h', hpath, hsibling]
    exact ⟨rfl, rfl⟩

/-- A reference without a member. -/
def plain : Reference.Parts where
  directory := some "conf.d/"
  stem := "a"
  extension := .yml
  member := none
  directory_spec := by
    rintro _ ⟨⟩
    exact ⟨by decide, "conf.d", by decide, rfl⟩
  stem_spec := by decide
  member_spec := by rintro _ ⟨⟩

/-- Its member looks like the rest of a path, with a directory and extensions of its own. -/
def deceptive : Reference.Parts :=
  { plain with
    member := some "b.yml/c.json:d/e.js"
    member_spec := by
      rintro _ ⟨⟩
      decide }

/-- The path ends before the member all the same, and the file of the stage is read beside it. -/
theorem value_members_inert_deceptive :
    Reference.parse? plain.text = some plain.reference
      ∧ Reference.parse? deceptive.text = some deceptive.reference
      ∧ deceptive.reference.path = "conf.d/a.yml"
      ∧ outcome (FileView.ofFields [("conf.d/a.dev.yml", .object [("a", .null)])])
          (value (some (.string deceptive.text)) "variables" "dev" .deep)
        = outcome (FileView.ofFields [("conf.d/a.dev.yml", .object [("a", .null)])])
          (value (some (.string plain.text)) "variables" "dev" .deep) := by
  obtain ⟨-, hcomposed⟩ := value_members_inert plain.parse?_text deceptive.parse?_text rfl
  exact ⟨plain.parse?_text, deceptive.parse?_text, by decide,
    (hcomposed _ "variables" "dev" .deep).2⟩

end Compose

end StageVars

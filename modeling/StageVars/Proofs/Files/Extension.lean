import StageVars.Files.Directory
import StageVars.Files.Extension
/-!
# StageVars.Proofs.Files.Extension -- what a path ends with

The extension of a path is what stands behind its last point, and the last name of a path is
what stands behind its last slash. A path with an extension has it in its last name, since no
extension holds a slash.

* `ofPath?_eq_some_iff`: the paths with an extension.
* `components_concat`, `toList_join`: the last name of a path.
-/

namespace StageVars

namespace Extension

/-- What stands behind the last point. -/
theorem suffix?_eq_some_iff (path w : String) :
    suffix? path = some w ↔ (∃ stem, path = stem ++ "." ++ w) ∧ '.' ∉ w.toList := by
  constructor
  · intro h
    simp only [suffix?] at h
    split at h
    next => cases h
    next hdrop =>
      cases hbehind : path.toList.reverse.dropWhile (· != '.') with
      | nil => exact absurd hbehind hdrop
      | cons c rest =>
        obtain rfl : c = '.' := by
          have hhead := List.head_dropWhile_not (p := (· != '.')) (l := path.toList.reverse)
            (by simp [hbehind])
          simpa [hbehind] using hhead
        have hsplit := List.takeWhile_append_dropWhile (p := (· != '.')) (l := path.toList.reverse)
        rw [hbehind] at hsplit
        obtain rfl := Option.some.inj h
        refine ⟨⟨String.ofList rest.reverse, ?_⟩, ?_⟩
        · rw [← String.toList_inj, ← List.reverse_inj]
          simpa using hsplit.symm
        · rw [String.toList_ofList, List.mem_reverse]
          intro hmem
          simpa using List.all_eq_true.mp List.all_takeWhile _ hmem
  · rintro ⟨⟨stem, rfl⟩, hw⟩
    have hreversed : (stem ++ "." ++ w).toList.reverse
        = w.toList.reverse ++ '.' :: stem.toList.reverse := by simp
    have hnone : ∀ c ∈ w.toList.reverse, (c != '.') = true := by
      intro c hc
      rw [bne_iff_ne]
      rintro rfl
      exact hw (List.mem_reverse.mp hc)
    simp only [suffix?, hreversed, List.dropWhile_append_of_pos hnone,
      List.takeWhile_append_of_pos hnone]
    simp

theorem ofName?_eq_some_iff (s : String) (e : Extension) : ofName? s = some e ↔ s = e.name := by
  constructor
  · intro h
    have hname := List.find?_some (p := fun e => Extension.name e == s) h
    exact (beq_iff_eq.mp hname).symm
  · rintro rfl
    exact ofName?_name e

/-- A path has an extension when it ends with a point and the extension's name. -/
theorem ofPath?_eq_some_iff (path : String) (e : Extension) :
    ofPath? path = some e ↔ ∃ stem, path = stem ++ "." ++ e.name := by
  have hpoint : '.' ∉ e.name.toList := by cases e <;> decide
  simp only [ofPath?, Option.bind_eq_some_iff, suffix?_eq_some_iff, ofName?_eq_some_iff]
  constructor
  · rintro ⟨_, ⟨hstem, -⟩, rfl⟩
    exact hstem
  · intro hstem
    exact ⟨e.name, ⟨hstem, hpoint⟩, rfl⟩

end Extension

namespace Path

/-- The last part of a text between slashes ends as the text does. -/
theorem splitOn_concat (before : List Char) {w : List Char} (hslash : '/' ∉ w) :
    ∃ way name, (before ++ w).splitOn '/' = way ++ [name] ∧ w <:+ name := by
  induction before with
  | nil =>
    refine ⟨[], w, List.splitOnP_eq_singleton fun c hc => ?_, List.suffix_refl w⟩
    rw [beq_eq_false_iff_ne]
    rintro rfl
    exact hslash hc
  | cons c before ih =>
    obtain ⟨way, name, hsplit, hname⟩ := ih
    rw [List.splitOn] at hsplit
    rw [List.cons_append, List.splitOn, List.splitOnP_cons_eq_if_modifyHead, hsplit]
    split
    · exact ⟨[] :: way, name, rfl, hname⟩
    · -- the character belongs to the first part, which may be the last one, too
      cases way with
      | nil => exact ⟨[], c :: name, rfl, hname.trans (List.suffix_cons c name)⟩
      | cons first way => exact ⟨(c :: first) :: way, name, rfl, hname⟩

/-- The last component of a path ends as the path does. -/
theorem components_concat (before : List Char) {path w : String} (hslash : '/' ∉ w.toList)
    (hpath : path.toList = before ++ w.toList) :
    ∃ way name, components path = way ++ [name] ∧ w.toList <:+ name.toList := by
  obtain ⟨way, name, hsplit, hname⟩ := splitOn_concat before hslash
  refine ⟨way.map String.ofList, String.ofList name, ?_, by rwa [String.toList_ofList]⟩
  rw [components, hpath, hsplit, List.map_append, List.map_singleton]

/-- A path seen from another directory ends as it did. -/
theorem toList_join (root path : String) :
    ∃ before, (join root path).toList = before ++ path.toList := by
  rw [join]
  split
  · exact ⟨[], rfl⟩
  · split
    · exact ⟨root.toList, String.toList_append⟩
    · exact ⟨(root ++ "/").toList, String.toList_append⟩

end Path

end StageVars

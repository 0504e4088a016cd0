import StageVars.Files.Extension
/-!
# StageVars.Proofs.Lookup.Probing -- looking for the file of a stem

A search asks for one candidate after another and stops at the first that is there.
`calls_locate` lists the questions of a search and `result_locate` says what it finds.
-/

namespace StageVars

/-- The paths under which the file of a stem may lie, in the order in which they are
tried. -/
def candidates (stem : String) : List String :=
  Extension.all.map fun e => stem ++ "." ++ e.name

namespace FileView

variable (files : FileView)

/-- The first of some paths that is there. -/
def firstPresent (paths : List String) : Option String := paths.find? files.present

theorem firstPresent_eq_none_iff (paths : List String) :
    files.firstPresent paths = none ↔ ∀ path ∈ paths, files.present path = false := by
  simp [firstPresent]

theorem firstPresent_append_cons {before : List String}
    (hbefore : ∀ p ∈ before, files.present p = false) {path : String}
    (hpath : files.present path = true) (after : List String) :
    files.firstPresent (before ++ path :: after) = some path := by
  have hnone := (files.firstPresent_eq_none_iff before).mpr hbefore
  rw [firstPresent] at hnone
  rw [firstPresent, List.find?_append, hnone, Option.none_or, List.find?_cons_of_pos hpath]

/-- The questions of a search: a no for each path before the first that is there, and a
yes for that one. -/
def probes (paths : List String) : List Call :=
  (paths.takeWhile (!files.present ·)).map (.probe · false)
    ++ (files.firstPresent paths).toList.map (.probe · true)

theorem probes_cons_of_present {path : String} (h : files.present path = true)
    (rest : List String) : files.probes (path :: rest) = [.probe path true] := by
  simp [probes, firstPresent, h]

theorem probes_cons_of_not_present {path : String} (h : files.present path = false)
    (rest : List String) :
    files.probes (path :: rest) = .probe path false :: files.probes rest := by
  simp [probes, firstPresent, h]

end FileView

namespace Lookup

variable (files : FileView)

theorem result_locateFrom (stem : String) (extensions : List Extension) :
    (locateFrom stem extensions).result files
      = files.firstPresent (extensions.map fun e => stem ++ "." ++ e.name) := by
  induction extensions with
  | nil => rfl
  | cons e rest ih =>
    rw [locateFrom, result_bind]
    show (if files.present _ = true then _ else _ : Lookup _).result files = _
    cases h : files.present (stem ++ "." ++ e.name) with
    | true => simp [FileView.firstPresent, h]
    | false =>
      rw [if_neg Bool.false_ne_true, ih]
      simp [FileView.firstPresent, h]

theorem calls_locateFrom (stem : String) (extensions : List Extension) :
    (locateFrom stem extensions).calls files
      = files.probes (extensions.map fun e => stem ++ "." ++ e.name) := by
  induction extensions with
  | nil => rfl
  | cons e rest ih =>
    rw [locateFrom, calls_bind, List.map_cons]
    show .probe _ (files.present _)
        :: (if files.present _ = true then _ else _ : Lookup _).calls files = _
    cases h : files.present (stem ++ "." ++ e.name) with
    | true => rw [if_pos rfl, calls_pure, files.probes_cons_of_present h]
    | false => rw [if_neg Bool.false_ne_true, ih, files.probes_cons_of_not_present h]

/-- A search finds the first candidate that is there. -/
theorem result_locate {stem : String} (h : stem.isEmpty = false) :
    (locate (some stem)).result files = files.firstPresent (candidates stem) := by
  simp only [locate, h, Bool.false_eq_true, if_false]
  exact result_locateFrom files stem Extension.all

/-- A search asks for the candidates up to and with the first that is there. -/
theorem calls_locate {stem : String} (h : stem.isEmpty = false) :
    (locate (some stem)).calls files = files.probes (candidates stem) := by
  simp only [locate, h, Bool.false_eq_true, if_false]
  exact calls_locateFrom files stem Extension.all

end Lookup

end StageVars

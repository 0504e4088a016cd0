import StageVars.Proofs.Json.Reading
import StageVars.Proofs.Service.History
import StageVars.Proofs.Session.Refusal
import StageVars.Proofs.Session.Selection
/-!
# StageVars.Proofs.Session.Loading -- which service documents can be had

A service document is an object that a file holds. Whatever else the file holds, or that there is
no such file, is said with the path of the file; whatever keeps the file from being read is said as
reading says it. So a service that was loaded has an object at its root, and a start leaves all of
that object but two keys as it is.

* `outcome_load_eq_ok_iff`, `outcome_load_eq_error_iff`: loading a path.
* `outcome_discover_eq`: looking for the document first.
* `ServiceFiles.concernsReading_of_content`: what can go wrong with reading.
* `exists_root_start`: the root of a service after a start.
* `documents_loaded`: all of it, for the files of a service.
-/

namespace StageVars

/-! ## Reading -/

/-- A failure to read a path, and no other. -/
def Failure.ConcernsReading (path : String) : Failure → Prop
  | .unreadable p _ | .malformedYaml p _ | .malformedJson p _ | .moduleRefused p
  | .moduleBroken p _ => p = path
  | .noDocument _ | .unusableDocument _ _ | .unexpected _ => False

/-- Taking the value of a module source fails with a failure to read it. -/
theorem concernsReading_of_decodeModule {path : String} {evaluation : Evaluation} {f : Failure}
    (h : decodeModule path evaluation = .error f) : f.ConcernsReading path := by
  cases evaluation with
  | error reason =>
    cases h
    rfl
  | ok printed =>
    rw [decodeModule] at h
    split at h <;> cases h
    rfl

/-- Decoding a file fails with a failure to read that file. -/
theorem concernsReading_of_decodeFile {path : String} {e : Extension}
    {text : Unit → Except TextFault String} {evaluation : Option (Unit → Evaluation)} {f : Failure}
    (h : decodeFile path e text evaluation = .error f) : f.ConcernsReading path := by
  have htext (h : (text ()).mapError (fun fault => Failure.unreadable path fault.message)
      = .error f) : f.ConcernsReading path := by
    cases hread : text () with
    | error fault =>
      rw [hread] at h
      cases h
      rfl
    | ok t =>
      rw [hread] at h
      cases h
  cases e with
  | yml | yaml =>
    rcases bind_eq_error_iff.mp h with h | ⟨t, -, h⟩
    · exact htext h
    · split at h
      · cases h
      · split at h <;> cases h
        rfl
  | json =>
    rcases bind_eq_error_iff.mp h with h | ⟨t, -, h⟩
    · exact htext h
    · split at h <;> cases h
      rfl
  | js =>
    cases evaluation with
    | none =>
      cases h
      rfl
    | some evaluation => exact concernsReading_of_decodeModule h

namespace ServiceFiles

variable {dir : ServiceFiles} {path : String}

/-- Reading a path fails with a failure to read that path. -/
theorem concernsReading_of_content {f : Failure} (h : dir.content path = .error f) :
    f.ConcernsReading path := by
  rw [content] at h
  split at h
  · cases h
  · split at h
    next => cases h
    next e _ =>
      cases hdecode : dir.decoded path e with
      | ok v =>
        rw [hdecode] at h
        cases h
      | error f' =>
        rw [hdecode] at h
        cases h
        exact concernsReading_of_decodeFile hdecode

/-- Where the root of a service is the working directory, a relative path is followed from there. -/
theorem lookup?_of_follow {route : Route} (hroot : dir.root = "")
    (hpath : Path.isUnusable path = false) (hrelative : Path.isAbsolute path = false)
    (h : dir.directory.follow dir.directory.here (Path.components path) = .ok route) :
    dir.directory.lookup? (Path.join dir.root path) = dir.directory.find? route := by
  have hjoin : Path.join dir.root path = path := by simp [hroot, Path.join, hrelative]
  simp [hjoin, Directory.lookup?, hpath, Directory.origin, hrelative, h]

end ServiceFiles

namespace Service

open Composing

variable {files : FileView}

/-! ## Loading -/

/-- A service is loaded from an object, which becomes its document. -/
theorem outcome_load_eq_ok_iff (path : String) (s : Service) :
    outcome files (load path) = .ok s
      ↔ ∃ fields, files.content path = .ok (some (.object fields)) ∧ s = ⟨.object fields⟩ := by
  rw [load, outcome_bind, outcome_read, bind_eq_ok_iff]
  constructor
  · rintro ⟨content, hcontent, h⟩
    rcases content with _ | _ | _ | _ | _ | _ | fields
    case some.object =>
      cases h
      exact ⟨fields, hcontent, rfl⟩
    all_goals cases h
  · rintro ⟨fields, hcontent, rfl⟩
    exact ⟨_, hcontent, rfl⟩

/-- Loading fails as reading does, or because nothing or no object was read. -/
theorem outcome_load_eq_error_iff (path : String) (e : Failure) :
    outcome files (load path) = .error e
      ↔ files.content path = .error e
        ∨ (files.content path = .ok none ∧ e = .unusableDocument path notFound)
        ∨ ∃ v, files.content path = .ok (some v) ∧ v.isObject = false
          ∧ e = .unusableDocument path notAMapping := by
  rw [load, outcome_bind, outcome_read, bind_eq_error_iff]
  refine or_congr_right ⟨?_, ?_⟩
  · rintro ⟨content, hcontent, h⟩
    rcases content with _ | v
    case none =>
      cases h
      exact Or.inl ⟨hcontent, rfl⟩
    case some =>
      cases v <;> cases h <;> exact Or.inr ⟨_, hcontent, rfl, rfl⟩
  · rintro (⟨hcontent, rfl⟩ | ⟨v, hcontent, hv, rfl⟩)
    · exact ⟨none, hcontent, rfl⟩
    · refine ⟨some v, hcontent, ?_⟩
      cases v <;> first | rfl | cases hv

/-! ## Looking for the document -/

/-- The names that a service document can have, in the order in which they are tried. -/
def documentPaths : List String :=
  ["./serverless.yml", "./serverless.yaml", "./serverless.json", "./serverless.js"]

/-- The first of its names that is there is loaded. -/
theorem outcome_discover_eq (files : FileView) (shownRoot : String) :
    outcome files (discover shownRoot)
      = match files.firstPresent documentPaths with
        | some path => outcome files (load path)
        | none => .error (.noDocument shownRoot) := by
  show outcome files (monadLift (Lookup.locate (some documentStem)) >>= _) = _
  rw [outcome_bind, outcome_lift, Lookup.result_locate files rfl]
  show outcome files (match files.firstPresent documentPaths with | some path => _ | none => _) = _
  split <;> rfl

/-- What is looked for and cannot be read says so, but never that it is not there. -/
theorem outcome_discover_ne_notFound (dir : ServiceFiles) (shownRoot path : String) :
    outcome dir.view (discover shownRoot) ≠ .error (.unusableDocument path notFound) := by
  intro h
  rw [outcome_discover_eq] at h
  split at h
  next found hfound =>
    rcases (outcome_load_eq_error_iff found _).mp h with hread | ⟨hnone, -⟩ | ⟨_, -, -, hreason⟩
    · exact ServiceFiles.concernsReading_of_content hread
    · -- what a search has found is there, and has an extension that reading knows
      have hlocate : (Lookup.locate (some documentStem)).result dir.view = some found :=
        (Lookup.result_locate dir.view rfl).trans hfound
      obtain ⟨e, hpath, hpresent⟩ := exists_extension_of_locate hlocate
      have hextension := (Extension.ofPath?_eq_some_iff found e).mpr ⟨documentStem, hpath⟩
      have habsent := (dir.content_eq_none_iff hextension).mp hnone
      rw [show dir.present found = true from hpresent] at habsent
      cases habsent
    · exact absurd (Failure.unusableDocument.inj hreason).2 (by decide)
  next => cases h

end Service

namespace Session

open Composing Service

/-- An object at the root of a service is one after a start, and of its keys only those of the two
sections are written to. -/
theorem exists_root_start {s : Service} {root : Fields} (h : s.document = .object root)
    (files : FileView) (asked : Option String) :
    ∃ root', ((start s asked).result files).service.document = .object root'
      ∧ Fields.GrowsAt ["custom", "provider"] root root' := by
  rw [result_start]
  cases outcome files (s.compose (s.stageFor asked)) with
  | error e => exact ⟨root, h, .refl _ root⟩
  | ok c =>
    obtain ⟨root', hroot', hgrows⟩ := exists_root_withSections h (Write.changes c).written
    rw [← Write.run_eq] at hroot'
    exact ⟨root', hroot', hgrows⟩

/-- A service that was loaded has an object at its root. -/
theorem exists_root_of_loaded {files : FileView} {s : Service}
    (h : (∃ path, outcome files (load path) = .ok s)
      ∨ ∃ shownRoot, outcome files (discover shownRoot) = .ok s) :
    ∃ root, s.document = .object root := by
  have hload {path : String} (h : outcome files (load path) = .ok s) :
      ∃ root, s.document = .object root := by
    obtain ⟨root, -, rfl⟩ := (outcome_load_eq_ok_iff path s).mp h
    exact ⟨root, rfl⟩
  rcases h with ⟨path, h⟩ | ⟨shownRoot, h⟩
  · exact hload h
  · rw [outcome_discover_eq] at h
    split at h
    next => exact hload h
    next => cases h

/-- **A service document is had, or it is said why not.** A search for the document fails with the
directory that is shown exactly if none of the four names is there; else it comes to what loading
the first of them comes to, and this is never that nothing is there. Loading a path succeeds
exactly if it holds an object, which becomes the document as it is. It fails exactly as reading
does, or because nothing or no object was read, the null of a blank file included; a failure to
read concerns the path and is no failure of the other kinds. So a service that was loaded has an
object at its root, and a start with whatever files leaves all of its keys but two as they are. -/
theorem documents_loaded (dir : ServiceFiles) :
    (∀ shownRoot d, outcome dir.view (discover shownRoot) = .error (.noDocument d)
        ↔ d = shownRoot ∧ ∀ path ∈ documentPaths, dir.present path = false)
    ∧ (∀ shownRoot before path after, documentPaths = before ++ path :: after →
        (∀ p ∈ before, dir.present p = false) → dir.present path = true →
        outcome dir.view (discover shownRoot) = outcome dir.view (load path))
    ∧ (∀ shownRoot path,
        outcome dir.view (discover shownRoot) ≠ .error (.unusableDocument path notFound))
    ∧ (∀ path s, outcome dir.view (load path) = .ok s
        ↔ ∃ fields, dir.content path = .ok (some (.object fields)) ∧ s = ⟨.object fields⟩)
    ∧ (∀ path e, outcome dir.view (load path) = .error e
        ↔ dir.content path = .error e
          ∨ (dir.content path = .ok none ∧ e = .unusableDocument path notFound)
          ∨ ∃ v, dir.content path = .ok (some v) ∧ v.isObject = false
            ∧ e = .unusableDocument path notAMapping)
    ∧ (∀ path e, dir.content path = .error e → e.ConcernsReading path)
    ∧ (∀ path text,
        Extension.ofPath? path = some .yml ∨ Extension.ofPath? path = some .yaml →
        dir.text path = .ok text → isBlankText text = true →
        outcome dir.view (load path) = .error (.unusableDocument path notAMapping))
    ∧ ∀ s, ((∃ path, outcome dir.view (load path) = .ok s)
          ∨ ∃ shownRoot, outcome dir.view (discover shownRoot) = .ok s) →
        ∃ root, s.document = .object root
          ∧ ∀ files asked, ∃ root',
            ((start s asked).result files).service.document = .object root'
              ∧ Fields.GrowsAt ["custom", "provider"] root root' := by
  refine ⟨fun shownRoot d => ?_, fun shownRoot before path after hpaths hbefore hpath => ?_,
    outcome_discover_ne_notFound dir, outcome_load_eq_ok_iff, outcome_load_eq_error_iff,
    fun path e => ServiceFiles.concernsReading_of_content,
    fun path text hyaml htext hblank => ?_, fun s h => ?_⟩
  · have hnone := dir.view.firstPresent_eq_none_iff documentPaths
    rw [outcome_discover_eq]
    cases hfirst : dir.view.firstPresent documentPaths with
    | none =>
      have habsent : ∀ path ∈ documentPaths, dir.present path = false := hnone.mp hfirst
      constructor
      · intro h
        cases h
        exact ⟨rfl, habsent⟩
      · rintro ⟨rfl, -⟩
        rfl
    | some path =>
      rw [hfirst] at hnone
      refine iff_of_false (fun h => ?_) fun h => nomatch hnone.mpr h.2
      -- loading never says that no document is there
      rcases (outcome_load_eq_error_iff path _).mp h with hread | ⟨-, hreason⟩ | ⟨_, -, -, hreason⟩
      · exact ServiceFiles.concernsReading_of_content hread
      · cases hreason
      · cases hreason
  · rw [outcome_discover_eq, hpaths, dir.view.firstPresent_append_cons hbefore hpath]
  · have hnull := ServiceFiles.content_of_blank hyaml htext hblank
    exact (outcome_load_eq_error_iff path _).mpr (Or.inr (Or.inr ⟨.null, hnull, rfl, rfl⟩))
  · obtain ⟨root, hroot⟩ := exists_root_of_loaded h
    exact ⟨root, hroot, exists_root_start hroot⟩

/-- The document that is held behind a blank one. -/
def heldBehind : Value := .object [("plugins", .array []), ("custom", .null)]

/-- A blank document, and behind it one that holds an object. -/
def blankFirst : ServiceFiles where
  directory := ⟨[(["serverless.yaml"], .file (some " \n")),
    (["serverless.json"], .file (some (Json.pretty heldBehind))),
    (["variables.json"], .file (some "\x7b\"a\": 1\x7d"))], []⟩
  root := ""
  modules := none

/-- The blank one is found first and refused; the other one can be loaded by its path. -/
theorem documents_loaded_blankFirst :
    blankFirst.text "./serverless.yaml" = .ok " \n"
      ∧ outcome blankFirst.view (discover ".")
        = .error (.unusableDocument "./serverless.yaml" notAMapping)
      ∧ ∃ s root root', outcome blankFirst.view (load "serverless.json") = .ok s
        ∧ s.document = .object root
        ∧ ((start s none).result blankFirst.view).service.document = .object root'
        ∧ Fields.GrowsAt ["custom", "provider"] root root' := by
  have hroute {path : String} (route : Route) (hpath : Path.isUnusable path = false)
      (hrelative : Path.isAbsolute path = false)
      (h : blankFirst.directory.follow [] (Path.components path) = .ok route) :
      blankFirst.directory.lookup? (Path.join blankFirst.root path)
        = blankFirst.directory.find? route := ServiceFiles.lookup?_of_follow rfl hpath hrelative h
  have habsent : blankFirst.present "./serverless.yml" = false := by
    rw [ServiceFiles.present, Directory.contains,
      hroute ["serverless.yml"] (by decide) (by simp [Path.isAbsolute]) rfl]
    rfl
  have hblank : blankFirst.text "./serverless.yaml" = .ok " \n" := by
    rw [ServiceFiles.text, hroute ["serverless.yaml"] (by decide) (by simp [Path.isAbsolute]) rfl]
    rfl
  have hheld : blankFirst.text "serverless.json" = .ok (Json.pretty heldBehind) := by
    rw [ServiceFiles.text, hroute ["serverless.json"] (by decide) (by simp [Path.isAbsolute]) rfl]
    rfl
  have hyaml : Extension.ofPath? "./serverless.yaml" = some .yaml := by decide
  have hcontent : blankFirst.content "serverless.json" = .ok (some heldBehind) :=
    ServiceFiles.content_of_decode? (by decide) hheld
      (Json.decode?_pretty ⟨by decide, by decide, by decide⟩)
  obtain ⟨-, hfirst, -, hloaded, -, -, hnull, hroots⟩ := documents_loaded blankFirst
  have hdiscover := hfirst "." ["./serverless.yml"] "./serverless.yaml"
    ["./serverless.json", "./serverless.js"] rfl (List.forall_mem_singleton.mpr habsent)
    (ServiceFiles.present_of_text hyaml hblank)
  have hload := (hloaded "serverless.json" _).mpr ⟨_, hcontent, rfl⟩
  obtain ⟨root, hroot, hstart⟩ := hroots _ (Or.inl ⟨_, hload⟩)
  obtain ⟨root', hroot', hgrows⟩ := hstart blankFirst.view none
  refine ⟨hblank, ?_, _, root, root', hload, hroot, hroot', hgrows⟩
  rw [hdiscover]
  exact hnull _ _ (Or.inr hyaml) hblank (by decide)

end Session

end StageVars

import StageVars.Proofs.Files.Extension
import StageVars.Proofs.Files.Contents
import StageVars.Proofs.Reference.Written
import StageVars.Proofs.Session.Start
/-!
# StageVars.Proofs.Session.Selection -- the files that are selected

A file is selected because a search has found it or because a reference names it. Either way its
path ends with an extension that reading knows, and so it reads as nothing only if it is not
there. A start reads selected files and no others: none that is there is passed over.

* `ServiceFiles.content_eq_none_iff`: what reads as nothing.
* `exists_extension_of_locate`, `Reference.ofPath?_path`, `Reference.ofPath?_sibling`: what is found
  and what is named.
* `Compose.isSome_ofPath?_of_mem_pathsOf`: all that composing a value reads.
* `selected_not_skipped`: all of it together, and for a whole start.
-/

namespace StageVars

/-- A path with an extension reads as nothing exactly if it is not there. -/
theorem ServiceFiles.content_eq_none_iff (dir : ServiceFiles) {path : String} {e : Extension}
    (h : Extension.ofPath? path = some e) :
    dir.content path = .ok none ↔ dir.present path = false := by
  rw [content]
  cases dir.present path with
  | false => exact iff_of_true rfl rfl
  | true =>
    simp only [Bool.not_true, Bool.false_eq_true, if_false, h]
    cases dir.decoded path e <;> simp [Except.map]

/-- Reading knows the extension of a path, so that the path reads as nothing exactly if it is not
there. -/
def ServiceFiles.NeverSkips (dir : ServiceFiles) (path : String) (e : Extension) : Prop :=
  Extension.ofPath? path = some e ∧ (dir.content path = .ok none ↔ dir.present path = false)

namespace ServiceFiles

variable {dir : ServiceFiles} {path : String} {e : Extension}

theorem neverSkips_of_ofPath? (h : Extension.ofPath? path = some e) : dir.NeverSkips path e :=
  ⟨h, dir.content_eq_none_iff h⟩

/-- What such a path holds is a value exactly if the path is there. -/
theorem NeverSkips.isSome_iff (h : dir.NeverSkips path e) {source : Option Value}
    (hsource : dir.content path = .ok source) : source.isSome ↔ dir.present path = true := by
  have hnone : source = none ↔ dir.present path = false := by
    rw [← h.2, hsource, Except.ok.injEq]
  rw [Option.isSome_iff_ne_none, ne_eq, hnone, Bool.not_eq_false]

/-- Such a path that is there holds a value or is an error to read. -/
theorem NeverSkips.some_or_error (h : dir.NeverSkips path e) (hpresent : dir.present path = true) :
    (∃ v, dir.content path = .ok (some v)) ∨ ∃ f, dir.content path = .error f := by
  cases hcontent : dir.content path with
  | error f => exact Or.inr ⟨f, rfl⟩
  | ok source =>
    obtain ⟨v, rfl⟩ := Option.isSome_iff_exists.mp ((h.isSome_iff hcontent).mpr hpresent)
    exact Or.inl ⟨v, rfl⟩

end ServiceFiles

/-! ## What is found -/

/-- What a search finds is there and ends with an extension. -/
theorem exists_extension_of_locate {files : FileView} {stem path : String}
    (h : (Lookup.locate (some stem)).result files = some path) :
    ∃ e : Extension, path = stem ++ "." ++ e.name ∧ files.present path = true := by
  cases hempty : stem.isEmpty with
  | true => simp [Lookup.locate, hempty] at h
  | false =>
    rw [Lookup.result_locate files hempty] at h
    obtain ⟨e, -, he⟩ := List.mem_map.mp (List.mem_of_find?_eq_some h)
    exact ⟨e, he.symm, List.find?_some h⟩

/-! ## What is named -/

namespace Reference

variable {text : String} {r : Reference}

/-- The path that a reference names ends with the reference's extension. -/
theorem ofPath?_path (h : parse? text = some r) : Extension.ofPath? r.path = some r.extension := by
  obtain ⟨-, c, -, hdescribes⟩ := parse?_reads h
  obtain ⟨hpath, hextension, -⟩ := hdescribes
  refine (Extension.ofPath?_eq_some_iff _ _).mpr ⟨String.ofList c.name, ?_⟩
  rw [hpath, hextension, Cut.path, String.ofList_append, ofList_suffix, String.append_assoc]

/-- So does the path of the file of a stage beside it, whatever the stage. -/
theorem ofPath?_sibling (r : Reference) (stage : String) :
    Extension.ofPath? (r.sibling stage) = some r.extension :=
  (Extension.ofPath?_eq_some_iff _ _).mpr ⟨_, rfl⟩

end Reference

/-! ## What is read -/

namespace Compose

/-- Every path that composing a value reads has an extension. -/
theorem isSome_ofPath?_of_mem_pathsOf {files : FileView} {literal : Option Value}
    {stem stage path : String} (h : path ∈ pathsOf files literal stem stage) :
    (Extension.ofPath? path).isSome := by
  have hfound {stem : String} (h : path ∈ (files.firstPresent (candidates stem)).toList) :
      (Extension.ofPath? path).isSome := by
    obtain ⟨e, -, rfl⟩ := List.mem_map.mp (List.mem_of_find?_eq_some (Option.mem_toList.mp h))
    exact Option.isSome_of_eq_some ((Extension.ofPath?_eq_some_iff _ e).mpr ⟨stem, rfl⟩)
  match literal with
  | some (.bool _) | some (.number _) => cases h
  | some (.string text) =>
    rw [pathsOf] at h
    split at h
    next => cases h
    next r hparse =>
      rcases List.mem_pair.mp h with rfl | rfl
      · exact Option.isSome_of_eq_some (Reference.ofPath?_path hparse)
      · exact Option.isSome_of_eq_some (r.ofPath?_sibling stage)
  | none | some .null | some (.object _) | some (.array _) =>
    exact (List.mem_append.mp h).elim hfound hfound

end Compose

/-- The reads of some paths are of these paths. -/
theorem FileView.mem_of_mem_reads {files : FileView} {paths : List String} {path : String}
    {result : ReadResult} (h : .read path result ∈ files.reads paths) :
    path ∈ paths ∧ files.content path = result := by
  induction paths with
  | nil => cases h
  | cons first rest ih =>
    rw [reads] at h
    rcases List.mem_cons.mp h with hfirst | hlater
    · cases hfirst
      exact ⟨List.mem_cons_self, rfl⟩
    · split at hlater
      next =>
        obtain ⟨hpath, hcontent⟩ := ih hlater
        exact ⟨List.mem_cons_of_mem first hpath, hcontent⟩
      next => cases hlater

namespace Session

open Composing

/-- What a start reads as nothing is not there. -/
theorem not_present_of_read_none {dir : ServiceFiles} {s : Service} {asked : Option String}
    {path : String} (h : .read path (.ok none) ∈ (start s asked).calls dir.view) :
    dir.present path = false := by
  have hread : .read path (.ok none) ∈ dir.view.reads (s.paths dir.view (s.stageFor asked)) := by
    rw [← s.reads_compose dir.view, ← calls_start]
    exact List.mem_filter.mpr ⟨h, rfl⟩
  obtain ⟨hpath, hcontent⟩ := FileView.mem_of_mem_reads hread
  have hextension : (Extension.ofPath? path).isSome :=
    (List.mem_append.mp hpath).elim Compose.isSome_ofPath?_of_mem_pathsOf
      Compose.isSome_ofPath?_of_mem_pathsOf
  obtain ⟨e, he⟩ := Option.isSome_iff_exists.mp hextension
  exact (dir.content_eq_none_iff he).mp hcontent

/-- **No file that is selected is passed over.** What a search finds for a stem ends with the
extension with which it was found, and holds a value or is an error to read. What a reference names
and what lies beside it for a stage end with the reference's extension and read as nothing exactly
if they are not there; if the reference is composed at all, it is replaced by the merge of these
two, and each of them is among the sources exactly if it is there. In a whole start, nothing that
is there reads as nothing. -/
theorem selected_not_skipped (dir : ServiceFiles) :
    (∀ stem path, (Lookup.locate (some stem)).result dir.view = some path →
      ∃ e : Extension, path = stem ++ "." ++ e.name ∧ dir.NeverSkips path e
        ∧ ((∃ v, dir.content path = .ok (some v)) ∨ ∃ f, dir.content path = .error f))
    ∧ (∀ text r, Reference.parse? text = some r →
      dir.NeverSkips r.path r.extension
        ∧ (∀ stage, dir.NeverSkips (r.sibling stage) r.extension)
        ∧ ∀ stem stage strategy change,
          outcome dir.view (Compose.value (some (.string text)) stem stage strategy)
            = .ok change →
          ∃ base staged, change = .replaced (strategy.merge [base, staged])
            ∧ dir.content r.path = .ok base ∧ (base.isSome ↔ dir.present r.path = true)
            ∧ dir.content (r.sibling stage) = .ok staged
            ∧ (staged.isSome ↔ dir.present (r.sibling stage) = true))
    ∧ ∀ s asked path, .read path (.ok none) ∈ (start s asked).calls dir.view →
      dir.present path = false := by
  refine ⟨?_, ?_, fun s asked path => not_present_of_read_none⟩
  · intro stem path hlocate
    obtain ⟨e, rfl, hpresent⟩ := exists_extension_of_locate hlocate
    have hskips : dir.NeverSkips (stem ++ "." ++ e.name) e :=
      ServiceFiles.neverSkips_of_ofPath? ((Extension.ofPath?_eq_some_iff _ e).mpr ⟨stem, rfl⟩)
    exact ⟨e, rfl, hskips, hskips.some_or_error hpresent⟩
  · intro text r hparse
    have hpath : dir.NeverSkips r.path r.extension :=
      ServiceFiles.neverSkips_of_ofPath? (Reference.ofPath?_path hparse)
    have hsibling (stage : String) : dir.NeverSkips (r.sibling stage) r.extension :=
      ServiceFiles.neverSkips_of_ofPath? (r.ofPath?_sibling stage)
    refine ⟨hpath, hsibling, ?_⟩
    intro stem stage strategy change houtcome
    change outcome dir.view (Compose.referenced text stage strategy) = _ at houtcome
    rw [Compose.outcome_referenced dir.view hparse] at houtcome
    obtain ⟨base, hbase, houtcome⟩ := bind_eq_ok_iff.mp houtcome
    obtain ⟨staged, hstaged, houtcome⟩ := bind_eq_ok_iff.mp houtcome
    cases houtcome
    exact ⟨base, staged, rfl, hbase, hpath.isSome_iff hbase, hstaged,
      (hsibling stage).isSome_iff hstaged⟩

/-- Files whose names and directories are full of points. -/
def dotted : ServiceFiles :=
  .ofDirectory ⟨[(["conf.d", ".app.v1.json"], .file (some "\x7b\"a\": 1\x7d")),
    (["conf.d", ".app.v1.eu.yml.json"], .file (some " null ")),
    (["variables.js.yaml"], .file (some "# nothing"))], []⟩

/-- A reference to one of them. -/
def dottedReference : Reference :=
  ⟨"conf.d/.app.v1.json", some "conf.d/", ".app.v1.json", ".app.v1", .json, some "x.yml"⟩

/-- The stage has the name of a file, and its own file holds null: that is a source, too. -/
theorem selected_not_skipped_dotted :
    (Lookup.locate (some "./variables.js")).result dotted.view = some "./variables.js.yaml"
      ∧ ((∃ v, dotted.content "./variables.js.yaml" = .ok (some v))
        ∨ ∃ f, dotted.content "./variables.js.yaml" = .error f)
      ∧ Reference.parse? "$\x7bfile(conf.d/.app.v1.json):x.yml\x7d" = some dottedReference
      ∧ dotted.present (dottedReference.sibling "eu.yml") = true
      ∧ ∃ base staged,
        Change.replaced (.object [("a", .number (.integer 1))])
          = .replaced (Merge.Strategy.deep.merge [base, staged])
        ∧ dotted.content (dottedReference.sibling "eu.yml") = .ok staged ∧ staged.isSome := by
  have hlocate : (Lookup.locate (some "./variables.js")).result dotted.view
      = some "./variables.js.yaml" := by decide +kernel
  have hparse : Reference.parse? "$\x7bfile(conf.d/.app.v1.json):x.yml\x7d"
      = some dottedReference := by decide +kernel
  have hpresent : dotted.present (dottedReference.sibling "eu.yml") = true := by decide +kernel
  have houtcome : outcome dotted.view
      (Compose.value (some (.string "$\x7bfile(conf.d/.app.v1.json):x.yml\x7d")) "variables"
        "eu.yml" .deep) = .ok (.replaced (.object [("a", .number (.integer 1))])) := by
    decide +kernel
  obtain ⟨hfound, hnamed, -⟩ := selected_not_skipped dotted
  obtain ⟨_, -, -, hread⟩ := hfound _ _ hlocate
  obtain ⟨-, -, hcomposed⟩ := hnamed _ _ hparse
  obtain ⟨base, staged, hmerge, -, -, hstaged, hsome⟩ := hcomposed _ _ _ _ houtcome
  exact ⟨hlocate, hread, hparse, hpresent, base, staged, hmerge, hstaged, hsome.mpr hpresent⟩

end Session

end StageVars

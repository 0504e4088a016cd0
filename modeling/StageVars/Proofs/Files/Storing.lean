import StageVars.Proofs.Files.Writing
import StageVars.Proofs.Json.Reading
import StageVars.Proofs.Session.Values
/-!
# StageVars.Proofs.Files.Storing -- what is stored as JSON is read back

A text that was stored under a path is the text of the file there. If that is the JSON text of a
storable value, the file reads as this value. A report is the text of an object that has a key for
each section that is there, and no other.

* `text_store`, `readsAs_of_decode?`: a stored text is had again, and read as it is decoded.
* `json_reads_back`: values and reports.
-/

namespace StageVars

namespace ServiceFiles

/-- The files after a text was stored under a path. -/
def store (dir : ServiceFiles) (path text : String) : Except PathFault ServiceFiles :=
  (dir.directory.write (Path.join dir.root path) text).map fun d => { dir with directory := d }

/-- A text can be stored under a path where a file can be written, and is then that of the file. -/
theorem text_store {dir : ServiceFiles} {path : String} {route : Route}
    (hroute : dir.directory.target (Path.join dir.root path) = .ok route) (stored : String) :
    ∃ dir', dir.store path stored = .ok dir' ∧ dir'.text path = .ok stored := by
  refine ⟨{ dir with directory := dir.directory.insert route (.file (some stored)) }, ?_, ?_⟩
  · rw [store, Directory.write, hroute]
    rfl
  · simp only [text, Directory.lookup?_insert hroute]

/-- A file under a path is read as a value if it has a text, and also after the text was stored
there, which can be done wherever a file can be written. -/
def ReadsAs (path stored : String) (v : Value) : Prop :=
  ∀ dir : ServiceFiles,
    (dir.text path = .ok stored → dir.content path = .ok (some v))
    ∧ ∀ route, dir.directory.target (Path.join dir.root path) = .ok route →
      ∃ dir', dir.store path stored = .ok dir' ∧ dir'.content path = .ok (some v)

theorem readsAs_of_decode? {path stored : String} {v : Value}
    (hpath : Extension.ofPath? path = some .json) (hdecode : Json.decode? stored = some v) :
    ReadsAs path stored v := by
  refine fun dir => ⟨fun htext => content_of_decode? hpath htext hdecode, fun route hroute => ?_⟩
  obtain ⟨dir', hstore, htext⟩ := text_store hroute stored
  exact ⟨dir', hstore, content_of_decode? hpath htext hdecode⟩

end ServiceFiles

/-! ## Reports -/

/-- The key of a section in a report. -/
def Section.key : Section → String
  | .custom => "custom"
  | .environment => "environment"

namespace Variables

/-- The sections that are there. -/
def sections (vars : Variables) : List Section :=
  [Section.custom, .environment].filter fun sec => (vars.get sec).isSome

/-- Both sections are storable as far as they are there. -/
def Storable (depth : Nat) (vars : Variables) : Prop :=
  ∀ sec, ∀ v ∈ vars.get sec, v.Storable depth

theorem storable_iff {vars : Variables} {depth : Nat} :
    vars.Storable depth
      ↔ (∀ v ∈ vars.custom, v.Storable depth) ∧ ∀ v ∈ vars.environment, v.Storable depth := by
  refine ⟨fun h => ⟨h .custom, h .environment⟩, fun h sec => ?_⟩
  cases sec with
  | custom => exact h.1
  | environment => exact h.2

theorem keys_toValue (vars : Variables) :
    Fields.keys vars.toValue.entries = vars.sections.map Section.key := by
  obtain ⟨custom, environment⟩ := vars
  cases custom <;> cases environment <;> rfl

theorem get?_toValue (vars : Variables) (sec : Section) :
    vars.toValue.get? sec.key = vars.get sec := by
  obtain ⟨custom, environment⟩ := vars
  cases custom <;> cases environment <;> cases sec <;> rfl

/-- A view shows everything. -/
theorem toValue_injective {vars vars' : Variables} (h : vars.toValue = vars'.toValue) :
    vars = vars' := by
  have hget (sec : Section) : vars.get sec = vars'.get sec := by
    rw [← get?_toValue, h, get?_toValue]
  obtain ⟨custom, environment⟩ := vars
  obtain ⟨custom', environment'⟩ := vars'
  obtain rfl : custom = custom' := hget .custom
  obtain rfl : environment = environment' := hget .environment
  rfl

/-- A view is one container around the sections. -/
theorem storable_toValue {vars : Variables} {depth : Nat} (h : vars.Storable depth) :
    vars.toValue.Storable (depth + 1) := by
  obtain ⟨hcustom, henvironment⟩ := storable_iff.mp h
  obtain ⟨custom, environment⟩ := vars
  refine (Value.storable_object_iff _ depth).mpr ?_
  cases custom with
  | none =>
    cases environment with
    | none => exact ⟨List.nodup_nil, List.forall_mem_nil _⟩
    | some e => exact ⟨List.nodup_singleton _, List.forall_mem_singleton.mpr (henvironment e rfl)⟩
  | some c =>
    cases environment with
    | none => exact ⟨List.nodup_singleton _, List.forall_mem_singleton.mpr (hcustom c rfl)⟩
    | some e =>
      refine ⟨?_, List.forall_mem_cons.mpr ⟨hcustom c rfl, ?_⟩⟩
      · show ["custom", "environment"].Nodup
        decide
      · exact List.forall_mem_singleton.mpr (henvironment e rfl)

/-- A report is decoded to the view that it shows. -/
theorem decode?_report {vars : Variables} (h : vars.Storable 126) :
    Json.decode? vars.report = some vars.toValue :=
  Json.decode?_pretty (storable_toValue h)

theorem report_injective {vars vars' : Variables} (h : vars.Storable 126)
    (h' : vars'.Storable 126) (hreport : vars.report = vars'.report) : vars = vars' := by
  have hdecoded := decode?_report h
  rw [hreport, decode?_report h'] at hdecoded
  exact (toValue_injective (Option.some.inj hdecoded)).symm

end Variables

namespace ServiceFiles

/-- **What is stored as JSON is read back.** A file with the extension of JSON that has the text of
a value is read as just this value, if its numbers are integers that 64 bits hold and at most 127
containers nest in it. With a report of such sections, nesting one less deeply, it is read as an
object that has the keys of the sections that are there, in their order, with the values of these
sections. So reports of different sections differ. -/
theorem json_reads_back {path : String} (hpath : Extension.ofPath? path = some .json) :
    (∀ v : Value, v.Storable 127 → ReadsAs path (render v .json) v)
    ∧ (∀ vars : Variables, vars.Storable 126 →
      ∃ fields, ReadsAs path vars.report (.object fields)
        ∧ Fields.keys fields = vars.sections.map Section.key
        ∧ ∀ sec, Fields.get? fields sec.key = vars.get sec)
    ∧ ∀ vars vars' : Variables, vars.Storable 126 → vars'.Storable 126 → vars ≠ vars' →
      vars.report ≠ vars'.report := by
  refine ⟨fun v hv => ?_, fun vars hvars => ?_, fun vars vars' hvars hvars' hne hreport => ?_⟩
  · exact readsAs_of_decode? hpath (Json.decode?_pretty hv)
  · have hread : ReadsAs path vars.report (.object vars.toValue.entries) :=
      readsAs_of_decode? hpath (Variables.decode?_report hvars)
    exact ⟨vars.toValue.entries, hread, vars.keys_toValue, vars.get?_toValue⟩
  · exact hne (Variables.report_injective hvars hvars' hreport)

/-- The greatest and the least integer, empty containers, and characters that are written behind a
backslash. -/
def extremes : Value :=
  .object [("\x01\"\\\té", .array [.number (.integer (2 ^ 64 - 1)), .number (.integer (-2 ^ 63)),
    .array [], .object []]), ("", .null)]

/-- A directory with nothing but a directory in it. -/
def shelf : ServiceFiles := ofDirectory ⟨[(["shelf"], .directory)], []⟩

/-- Extremes are read back from a new file, and a null is not shown as what is not there. -/
theorem json_reads_back_extremes :
    extremes.Storable 126
    ∧ (∃ dir, shelf.store "shelf/a.b.json" (render extremes .json) = .ok dir
      ∧ dir.content "shelf/a.b.json" = .ok (some extremes))
    ∧ (⟨some .null, some extremes⟩ : Variables).report
      ≠ (⟨none, some extremes⟩ : Variables).report := by
  have hpath : Extension.ofPath? "shelf/a.b.json" = some .json := by decide
  have htarget : shelf.directory.target (Path.join shelf.root "shelf/a.b.json")
      = .ok ["shelf", "a.b.json"] := by decide +kernel
  have hdistinct : extremes.DistinctKeys := by decide
  have hnesting : extremes.nesting ≤ 126 := by decide
  have hextremes : ∀ v ∈ some extremes, v.Storable 126 := by
    rintro v ⟨⟩
    exact ⟨hdistinct, by decide, hnesting⟩
  have hnull : ∀ v ∈ some Value.null, v.Storable 126 := by
    rintro v ⟨⟩
    exact ⟨trivial, rfl, Nat.zero_le _⟩
  obtain ⟨hvalues, -, hdiffer⟩ := json_reads_back hpath
  have hstored := hvalues extremes ⟨hdistinct, by decide, hnesting.trans (by decide)⟩
  refine ⟨hextremes extremes rfl, (hstored shelf).2 _ htarget, ?_⟩
  exact hdiffer _ _ (Variables.storable_iff.mpr ⟨hnull, hextremes⟩)
    (Variables.storable_iff.mpr ⟨nofun, hextremes⟩) nofun

end ServiceFiles

end StageVars

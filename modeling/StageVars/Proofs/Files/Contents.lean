import StageVars.Files.ServiceFiles
import StageVars.Proofs.Lookup.Composing
import StageVars.Proofs.Value.Documents
/-!
# StageVars.Proofs.Files.Contents -- what files hold

A view of files may answer anything, also with objects that name a key twice. Files that
are held in memory do so only if they were put there. The files of a service hold what was
read from a text, which has every hereditary property: it names each key once, and its
numbers fit. A path with a text is there, and is read as its extension says.
-/

namespace StageVars

namespace FileView

/-- What the files hold has a property. -/
def Holds (files : FileView) (P : Value → Prop) : Prop :=
  ∀ path v, files.content path = .ok (some v) → P v

/-- What the files hold has distinct keys. -/
def HoldsDistinct (files : FileView) : Prop :=
  ∀ path v, files.content path = .ok (some v) → v.DistinctKeys

/-- What is not there reads as nothing. -/
def MissingIsNothing (files : FileView) : Prop :=
  ∀ path, files.present path = false → files.content path = .ok none

/-- Files that are held in memory, by their paths. -/
def ofFields (held : Fields) : FileView where
  present path := (Fields.get? held path).isSome
  content path := .ok (Fields.get? held path)

theorem holdsDistinct_ofFields {held : Fields} (h : ∀ file ∈ held, file.2.DistinctKeys) :
    (ofFields held).HoldsDistinct := by
  intro path v hv
  exact h _ (Fields.mem_of_get? (Except.ok.inj hv))

end FileView

/-- What a module source exports has every hereditary property, as it is read from a text. -/
theorem hereditary_decodeModule {P : Value → Prop} (hP : Value.Hereditary P) {path : String}
    {evaluation : Evaluation} {v : Value} (h : decodeModule path evaluation = .ok v) : P v := by
  cases evaluation with
  | error reason => cases h
  | ok printed =>
    rw [decodeModule] at h
    split at h
    next hdecode =>
      cases h
      obtain ⟨content, -, hdecode⟩ := Option.bind_eq_some_iff.mp hdecode
      exact Json.hereditary_decode? hP hdecode
    next => cases h

/-- A file that is decoded has every hereditary property. -/
theorem hereditary_decodeFile {P : Value → Prop} (hP : Value.Hereditary P) {path : String}
    {e : Extension} {text : Unit → Except TextFault String}
    {evaluation : Option (Unit → Evaluation)} {v : Value}
    (h : decodeFile path e text evaluation = .ok v) : P v := by
  cases e with
  | yml | yaml =>
    obtain ⟨content, -, h⟩ := bind_eq_ok_iff.mp h
    split at h
    next =>
      cases h
      exact hP.null
    next =>
      split at h
      next hdecode =>
        cases h
        exact Yaml.hereditary_decode? hP hdecode
      next => cases h
  | json =>
    obtain ⟨content, -, h⟩ := bind_eq_ok_iff.mp h
    split at h
    next hdecode =>
      cases h
      exact Json.hereditary_decode? hP hdecode
    next => cases h
  | js =>
    cases evaluation with
    | none => cases h
    | some evaluation => exact hereditary_decodeModule hP h

/-- What the files of a service hold has every hereditary property. -/
theorem ServiceFiles.hereditary_view {P : Value → Prop} (hP : Value.Hereditary P)
    (dir : ServiceFiles) : dir.view.Holds P := by
  intro path v hv
  change dir.content path = _ at hv
  rw [content] at hv
  split at hv
  · cases hv
  · split at hv
    next => cases hv
    next e =>
      obtain ⟨w, hdecode, hw⟩ := bind_eq_ok_iff.mp hv
      cases hw
      exact hereditary_decodeFile hP hdecode

/-- The files of a service hold values with distinct keys, as starting again asks of files. -/
theorem ServiceFiles.holdsDistinct_view (dir : ServiceFiles) : dir.view.HoldsDistinct :=
  dir.hereditary_view Value.hereditary_distinctKeys

theorem ServiceFiles.missingIsNothing_view (dir : ServiceFiles) : dir.view.MissingIsNothing := by
  intro path habsent
  change dir.present path = false at habsent
  show dir.content path = _
  rw [content, habsent]
  rfl

/-! ## What a text is read as -/

namespace ServiceFiles

variable {dir : ServiceFiles} {path stored : String} {e : Extension}

/-- What has a text is there. -/
theorem present_of_text (hpath : Extension.ofPath? path = some e)
    (htext : dir.text path = .ok stored) : dir.present path = true := by
  have hempty : path.isEmpty = false := by
    rw [← Bool.not_eq_true, String.isEmpty_iff]
    rintro rfl
    cases hpath
  rw [present, hempty, Directory.contains]
  cases hlookup : dir.directory.lookup? (Path.join dir.root path) with
  | none =>
    rw [text, hlookup] at htext
    cases htext
  | some entry => rfl

/-- What has a text is read as its extension says. -/
theorem content_of_text (hpath : Extension.ofPath? path = some e)
    (htext : dir.text path = .ok stored) :
    dir.content path
      = (decodeFile path e (fun _ => .ok stored) (dir.evaluation path)).map some := by
  simp only [content, present_of_text hpath htext, hpath, decoded, htext]
  rfl

/-- A file with the extension of JSON is read as its text is decoded. -/
theorem content_of_decode? {v : Value} (hpath : Extension.ofPath? path = some .json)
    (htext : dir.text path = .ok stored) (hdecode : Json.decode? stored = some v) :
    dir.content path = .ok (some v) := by
  have hread : decodeFile path .json (fun _ => .ok stored) (dir.evaluation path) = .ok v := by
    have hok (f : TextFault → Failure) :
        (Except.ok stored : Except TextFault String).mapError f = .ok stored := rfl
    simp only [decodeFile, hok, bind, Except.bind, hdecode]
    rfl
  rw [content_of_text hpath htext, hread]
  rfl

/-- A blank text with an extension of YAML is read as null. -/
theorem content_of_blank (hpath : Extension.ofPath? path = some .yml
      ∨ Extension.ofPath? path = some .yaml)
    (htext : dir.text path = .ok stored) (hblank : isBlankText stored = true) :
    dir.content path = .ok (some .null) := by
  have hread (e : Extension) (he : e = .yml ∨ e = .yaml) :
      decodeFile path e (fun _ => .ok stored) (dir.evaluation path) = .ok .null := by
    rcases he with rfl | rfl <;> exact if_pos hblank
  rcases hpath with hpath | hpath
  · rw [content_of_text hpath htext, hread .yml (Or.inl rfl)]
    rfl
  · rw [content_of_text hpath htext, hread .yaml (Or.inr rfl)]
    rfl

end ServiceFiles

end StageVars

import StageVars.Proofs.Logger.Families
import StageVars.Proofs.Service.Writing
import StageVars.Proofs.Session.Start
/-!
# StageVars.Proofs.Session.Ordering -- the place of this plugin among all plugins

A start looks at the list of plugins to say whether this one is the first, and for nothing else.
What it says is one line or none; what it asks, what it comes to and what it writes are the same
for all that may stand in the document in place of the list.

* `position?_eq_some_iff`, `position?_eq_none_iff`: the place, counting everything that is listed.
* `apply_withPlugins`, `start_withPlugins`: writing the sections, and starting, beside any plugins.
* `start_order_warning`: the line, and that it is all.
-/

namespace StageVars

/-! ## Places -/

namespace Plugin

/-- The plugins that a document lists by what stands at `plugins`: those of a list, or of the list
that an object has for its modules, and else none. -/
inductive Listed : Option Value → List Value → Prop where
  | list (items : List Value) : Listed (some (.array items)) items
  | modules {fields : Fields} {items : List Value}
      (h : Fields.get? fields "modules" = some (.array items)) : Listed (some (.object fields)) items
  | moduleless {fields : Fields}
      (h : ∀ items, Fields.get? fields "modules" ≠ some (.array items)) :
      Listed (some (.object fields)) []
  | other {entry : Option Value} (hlist : ∀ items, entry ≠ some (.array items))
      (hobject : ∀ fields, entry ≠ some (.object fields)) : Listed entry []

/-- This plugin is listed at a place and nowhere before it. -/
def FirstAt (plugins : List Value) (i : Nat) : Prop :=
  plugins[i]? = some (.string name) ∧ ∀ j < i, plugins[j]? ≠ some (.string name)

theorem firstAt_zero_iff (plugins : List Value) :
    FirstAt plugins 0 ↔ plugins.head? = some (.string name) := by
  rw [FirstAt, List.head?_eq_getElem?]
  exact and_iff_left nofun

/-- What is listed is this plugin exactly if it is its name. -/
theorem asString?_beq_name (v : Value) :
    (v.asString? == some name) = decide (v = .string name) := by
  cases v <;> simp [Value.asString?, beq_eq_decide]

theorem position?_eq_some_iff (plugins : List Value) (i : Nat) :
    position? plugins = some i ↔ FirstAt plugins i := by
  simp only [position?, asString?_beq_name, List.findIdx?_eq_some_iff_getElem, FirstAt,
    decide_eq_true_eq]
  constructor
  · rintro ⟨hi, hname, hbefore⟩
    refine ⟨List.getElem?_eq_some_iff.mpr ⟨hi, hname⟩, fun j hj heq => ?_⟩
    obtain ⟨_, heq⟩ := List.getElem?_eq_some_iff.mp heq
    exact hbefore j hj heq
  · rintro ⟨hname, hbefore⟩
    obtain ⟨hi, hname⟩ := List.getElem?_eq_some_iff.mp hname
    refine ⟨hi, hname, fun j hj heq => hbefore j hj ?_⟩
    exact List.getElem?_eq_some_iff.mpr ⟨Nat.lt_trans hj hi, heq⟩

theorem position?_eq_none_iff (plugins : List Value) :
    position? plugins = none ↔ .string name ∉ plugins := by
  simp only [position?, asString?_beq_name, List.findIdx?_eq_none_iff, decide_eq_false_iff_not]
  constructor
  · exact fun h hmem => h _ hmem rfl
  · rintro h v hv rfl
    exact h hv

/-- The line that warns of a place. -/
def warningLine (position : String) : String :=
  name ++ ": WARNING: To ensure " ++ name ++
    " functions properly, it should be the first plugin. Found it at index: " ++ position

theorem line_misplaced (position : String) :
    logger.line (Logger.warning (misplaced position)) = warningLine position := by
  have hmark : ": WARNING: To ensure " = ": " ++ "WARNING: " ++ "To ensure " := by decide
  calc logger.line (Logger.warning (misplaced position))
      = name ++ ": " ++ ("WARNING: " ++ misplaced position) := by
        rw [Logger.warning_eq]
        rfl
    _ = warningLine position := by
        simp only [misplaced, warningLine, hmark, String.append_assoc]

end Plugin

/-! ## Services -/

namespace Service

variable (s : Service)

/-- The service with another value at `plugins`. -/
def withPlugins (v : Value) : Service :=
  ⟨.object (Fields.insert s.document.entries "plugins" v)⟩

/-- The document has something at `plugins`. -/
def ListsPlugins : Prop := (s.document.get? "plugins").isSome

theorem listsPlugins_iff : s.ListsPlugins ↔ "plugins" ∈ Fields.keys s.document.entries := by
  rw [ListsPlugins, Value.get?_eq_get?_entries, Fields.get?_isSome_iff]

theorem get?_document_withPlugins_of_ne {key : String} (h : key ≠ "plugins") (v : Value) :
    (s.withPlugins v).document.get? key = s.document.get? key := by
  rw [s.document.get?_eq_get?_entries]
  exact Fields.get?_insert_of_ne _ v h

theorem provider?_withPlugins (v : Value) (key : String) :
    (s.withPlugins v).provider? key = s.provider? key := by
  rw [provider?, provider?, s.get?_document_withPlugins_of_ne (by decide)]

theorem get?_withPlugins (v : Value) (sec : Section) : (s.withPlugins v).get? sec = s.get? sec := by
  cases sec with
  | custom => exact s.get?_document_withPlugins_of_ne (by decide) v
  | environment => exact s.provider?_withPlugins v "environment"

theorem stageFor_withPlugins (v : Value) (asked : Option String) :
    (s.withPlugins v).stageFor asked = s.stageFor asked := by
  rw [stageFor, stageFor, declaredStage, declaredStage, provider?_withPlugins]

theorem compose_withPlugins (v : Value) (stage : String) :
    (s.withPlugins v).compose stage = s.compose stage := by
  rw [compose_eq, compose_eq, get?_withPlugins, get?_withPlugins]

variable {s}

/-- A section is written beside the plugins. -/
theorem withSection_withPlugins (h : s.ListsPlugins) (v : Value) (sec : Section) (w : Value) :
    (s.withPlugins v).withSection sec w = (s.withSection sec w).withPlugins v := by
  rw [listsPlugins_iff] at h
  cases sec with
  | custom => exact congrArg (Service.mk ∘ Value.object) (Fields.insert_comm h (by decide) v w)
  | environment =>
    have hprovider : Fields.get? (Fields.insert s.document.entries "plugins" v) "provider"
        = Fields.get? s.document.entries "provider" := Fields.get?_insert_of_ne _ v (by decide)
    simp only [withSection, withEnvironment, withPlugins, Value.entries_object, hprovider]
    rw [Fields.insert_comm h (by decide)]

theorem ListsPlugins.withSection (h : s.ListsPlugins) (sec : Section) (w : Value) :
    (s.withSection sec w).ListsPlugins := by
  rwa [ListsPlugins, s.get?_plugins_withSection]

/-- Both sections are written beside the plugins. -/
theorem apply_withPlugins (h : s.ListsPlugins) (v : Value) (c : Changes) :
    (s.withPlugins v).apply c = (s.apply c).withPlugins v := by
  have hchange {s : Service} (h : s.ListsPlugins) (sec : Section) (change : Change) :
      (s.withPlugins v).change sec change = (s.change sec change).withPlugins v
        ∧ (s.change sec change).ListsPlugins := by
    cases change with
    | kept => exact ⟨rfl, h⟩
    | replaced w => exact ⟨withSection_withPlugins h v sec w, h.withSection sec w⟩
  obtain ⟨hcustom, hlists⟩ := hchange h .custom c.custom
  rw [apply, hcustom, (hchange hlists .environment c.environment).1, apply]

/-- What the sections hold after changes does not depend on the plugins. -/
theorem ofService_apply_withPlugins (s : Service) (v : Value) (c : Changes) :
    Variables.ofService ((s.withPlugins v).apply c) = Variables.ofService (s.apply c) := by
  have hsection (sec : Section) : ((s.withPlugins v).apply c).get? sec = (s.apply c).get? sec := by
    rw [get?_apply, get?_apply, get?_withPlugins]
  exact congrArg₂ Variables.mk (hsection .custom) (hsection .environment)

/-- The plugins of a service are those that its document lists. -/
theorem listed_plugins (s : Service) : Plugin.Listed (s.document.get? "plugins") s.plugins := by
  rw [plugins]
  cases s.document.get? "plugins" with
  | none => exact .other (by simp) (by simp)
  | some v =>
    cases v with
    | array items => exact .list items
    | object fields =>
      dsimp only
      split
      next items hmodules => exact .modules hmodules
      next hother => exact .moduleless hother
    | null | bool | number | string => exact .other (by simp) (by simp)

/-- An object lists the same plugins as the list that it has for its modules. -/
theorem plugins_withPlugins_object (s : Service) {fields : Fields} {items : List Value}
    (h : Fields.get? fields "modules" = some (.array items)) :
    (s.withPlugins (.object fields)).plugins = (s.withPlugins (.array items)).plugins := by
  have hget (v : Value) : (s.withPlugins v).document.get? "plugins" = some v :=
    Fields.get?_insert_self _ _ _
  simp only [plugins, hget, h]

end Service

/-! ## Starts -/

namespace Session

open Composing Service

variable (files : FileView) (s : Service) (asked : Option String)

/-- What a start logs, by the place of the plugin. -/
theorem log_start_eq :
    ((start s asked).result files).log
      = match Plugin.position? s.plugins with
        | some 0 => []
        | some position => [Plugin.warningLine (Nat.repr position)]
        | none => [Plugin.warningLine "-1"] := by
  rw [log_start, Plugin.orderWarning]
  match Plugin.position? s.plugins with
  | some 0 => rfl
  | some (position + 1) => exact congrArg (List.cons · []) (Plugin.line_misplaced _)
  | none => exact congrArg (List.cons · []) (Plugin.line_misplaced _)

/-- A start does the same beside any plugins. -/
theorem start_withPlugins (v : Value) :
    ((start (s.withPlugins v) asked).result files).outcome
        = ((start s asked).result files).outcome
    ∧ (start (s.withPlugins v) asked).calls files = (start s asked).calls files
    ∧ (s.ListsPlugins → ((start (s.withPlugins v) asked).result files).service
        = ((start s asked).result files).service.withPlugins v) := by
  rw [result_start, result_start, calls_start, calls_start, stageFor_withPlugins,
    compose_withPlugins]
  cases outcome files (s.compose (s.stageFor asked)) with
  | error e => exact ⟨rfl, rfl, fun _ => rfl⟩
  | ok c =>
    refine ⟨?_, rfl, fun h => apply_withPlugins h v c⟩
    exact congrArg (fun values => Except.ok (Session.mk _ values))
      (ofService_apply_withPlugins s v c)

/-- **A start says whether this plugin is the first, and the plugins matter for nothing else.**
Of all that the document lists, it looks for this plugin. Failing or not, it logs nothing exactly
if this plugin is the first, and otherwise one line, which warns of the first place where it is
listed, or of `-1` if it is not. With anything else in place of the plugins it comes to the same
outcome by the same questions, and the service afterwards is the same but for what stands in that
place. With an object in place of the list that it has for its modules even the line is the
same. -/
theorem start_order_warning :
    Plugin.Listed (s.document.get? "plugins") s.plugins
    ∧ ((start s asked).result files).log.length ≤ 1
    ∧ (((start s asked).result files).log = [] ↔ s.plugins.head? = some (.string Plugin.name))
    ∧ (∀ i, 0 < i → Plugin.FirstAt s.plugins i →
        ((start s asked).result files).log = [Plugin.warningLine (Nat.repr i)])
    ∧ (.string Plugin.name ∉ s.plugins →
        ((start s asked).result files).log = [Plugin.warningLine "-1"])
    ∧ (∀ v, ((start (s.withPlugins v) asked).result files).outcome
          = ((start s asked).result files).outcome
        ∧ (start (s.withPlugins v) asked).calls files = (start s asked).calls files
        ∧ (s.ListsPlugins → ((start (s.withPlugins v) asked).result files).service
            = ((start s asked).result files).service.withPlugins v))
    ∧ ∀ items fields, Fields.get? fields "modules" = some (.array items) →
        ((start (s.withPlugins (.object fields)) asked).result files).log
          = ((start (s.withPlugins (.array items)) asked).result files).log
        ∧ ((start (s.withPlugins (.object fields)) asked).result files).outcome
          = ((start (s.withPlugins (.array items)) asked).result files).outcome := by
  have hlog := log_start_eq files s asked
  refine ⟨s.listed_plugins, ?_, ?_, ?_, ?_, start_withPlugins files s asked, ?_⟩
  · rw [hlog]
    split <;> simp
  · rw [hlog, ← Plugin.firstAt_zero_iff, ← Plugin.position?_eq_some_iff]
    split <;> simp_all
  · intro i hi hfirst
    rw [hlog, (Plugin.position?_eq_some_iff _ i).mpr hfirst]
    cases i with
    | zero => cases hi
    | succ i => rfl
  · intro habsent
    rw [hlog, (Plugin.position?_eq_none_iff _).mpr habsent]
  · intro items fields hmodules
    refine ⟨?_, ?_⟩
    · rw [log_start_eq, log_start_eq, s.plugins_withPlugins_object hmodules]
    · rw [(start_withPlugins files s asked _).1, (start_withPlugins files s asked _).1]

/-- What is no name counts, too. -/
example :
    startLog ⟨.object [("plugins", .object [("modules",
      .array [.object [("name", .string "local")], .null, .string Plugin.name])])]⟩
      = [Plugin.warningLine "2"] := by
  decide +kernel

end Session

end StageVars

import Mathlib.Data.List.Induction
import StageVars.Proofs.Service.Writing
/-!
# StageVars.Proofs.Service.History -- what a service holds after any history of writes

A service is written by writing one section, named or not, or by applying changes of both.
Each of these is a list of writes to single sections, and so is a history of them. What one
such write leaves as it was, a whole history leaves as it was.

* `Fields.GrowsAt`: an object of which only some keys were written to.
* `Write.run_eq`: every way of writing is a list of writes to sections.
* `writeAll_frame`: both sections, the stage, the plugins, the root and the provider after
  any history.
-/

namespace StageVars

namespace Fields

/-- An object after writes to some keys only: the keys that it had stay in their order, new
ones come behind them and are among those written to, and all other keys hold what they
held. -/
structure GrowsAt (written : List String) (before after : Fields) : Prop where
  keys : ∃ new, keys after = keys before ++ new ∧ ∀ key ∈ new, key ∈ written ∧ key ∉ keys before
  get? : ∀ key, key ∉ written → get? after key = get? before key

namespace GrowsAt

variable {written : List String} {xs ys zs : Fields}

theorem refl (written : List String) (xs : Fields) : GrowsAt written xs xs :=
  ⟨⟨[], (List.append_nil _).symm, nofun⟩, fun _ _ => rfl⟩

theorem trans (hxy : GrowsAt written xs ys) (hyz : GrowsAt written ys zs) :
    GrowsAt written xs zs := by
  obtain ⟨new, hkeys, hnew⟩ := hxy.keys
  obtain ⟨newer, hkeys', hnewer⟩ := hyz.keys
  refine ⟨⟨new ++ newer, ?_, ?_⟩, fun key hkey => (hyz.get? key hkey).trans (hxy.get? key hkey)⟩
  · rw [hkeys', hkeys, List.append_assoc]
  · intro key hkey
    rcases List.mem_append.mp hkey with hfirst | hsecond
    · exact hnew key hfirst
    · -- what was not there in between was not there before
      obtain ⟨hwritten, habsent⟩ := hnewer key hsecond
      rw [hkeys] at habsent
      exact ⟨hwritten, fun hbefore => habsent (List.mem_append_left _ hbefore)⟩

/-- One write to one of the keys. -/
theorem insert {key : String} (hkey : key ∈ written) (xs : Fields) (v : Value) :
    GrowsAt written xs (Fields.insert xs key v) := by
  constructor
  · rw [keys_insert]
    by_cases hold : key ∈ Fields.keys xs
    · exact ⟨[], by rw [if_pos hold, List.append_nil], nofun⟩
    · refine ⟨[key], by rw [if_neg hold], ?_⟩
      intro other hother
      obtain rfl := List.mem_singleton.mp hother
      exact ⟨hkey, hold⟩
  · intro other hother
    have hne : other ≠ key := fun heq => hother (heq ▸ hkey)
    exact get?_insert_of_ne xs v hne

end GrowsAt

end Fields

/-- The value that a change writes, if it writes one. -/
def Change.written : Change → Option Value
  | .kept => none
  | .replaced v => some v

namespace Service

/-- A way to write to a service. -/
inductive Write where
  | custom (v : Value)
  | environment (v : Value)
  /-- A section that is named. -/
  | named (sec : Section) (v : Value)
  /-- What became of both sections. -/
  | changes (c : Changes)

namespace Write

/-- The service after a write. -/
def run (s : Service) : Write → Service
  | .custom v => s.withCustom v
  | .environment v => s.withEnvironment v
  | .named sec v => s.withSection sec v
  | .changes c => s.apply c

/-- The values that are written, in order. -/
def written : Write → List (Section × Value)
  | .custom v => [(.custom, v)]
  | .environment v => [(.environment, v)]
  | .named sec v => [(sec, v)]
  | .changes c =>
    (c.custom.written.map (Section.custom, ·)).toList
      ++ (c.environment.written.map (Section.environment, ·)).toList

end Write

/-- The service after a history of writes. -/
def writeAll (s : Service) (history : List Write) : Service := history.foldl Write.run s

/-- The value that a history wrote to a section last, if it wrote any. -/
def lastWritten (sec : Section) (history : List Write) : Option Value :=
  (((history.flatMap Write.written).filter (·.1 = sec)).getLast?).map Prod.snd

/-- The service after values were written to sections, one after the other. -/
def withSections (s : Service) (values : List (Section × Value)) : Service :=
  values.foldl (fun s entry => s.withSection entry.1 entry.2) s

/-! ## Histories as writes to sections -/

/-- Every way of writing is a list of writes to sections. -/
theorem Write.run_eq (s : Service) (w : Write) : w.run s = s.withSections w.written := by
  rcases w with v | v | ⟨sec, v⟩ | ⟨_ | v, _ | v'⟩ <;> rfl

theorem writeAll_eq (s : Service) (history : List Write) :
    s.writeAll history = s.withSections (history.flatMap Write.written) := by
  induction history generalizing s with
  | nil => rfl
  | cons w rest ih =>
    rw [List.flatMap_cons, withSections, List.foldl_append, ← withSections, ← withSections,
      ← Write.run_eq, ← ih]
    rfl

/-- What no write to a section changes, no list of them changes. -/
theorem eq_of_withSections {α : Type} {f : Service → α}
    (hf : ∀ (s : Service) sec v, f (s.withSection sec v) = f s) (s : Service)
    (values : List (Section × Value)) : f (s.withSections values) = f s := by
  induction values generalizing s with
  | nil => rfl
  | cons entry rest ih => exact (ih (s.withSection entry.1 entry.2)).trans (hf s _ _)

/-- A section holds what was written to it last, and what it held before if nothing was. -/
theorem get?_withSections (s : Service) (values : List (Section × Value)) (sec : Section) :
    (s.withSections values).get? sec
      = (((values.filter (·.1 = sec)).getLast?).map Prod.snd).or (s.get? sec) := by
  -- from the last write backwards, since that one decides
  induction values using List.reverseRecOn with
  | nil => rfl
  | append_singleton values last ih =>
    obtain ⟨other, v⟩ := last
    have hlast : s.withSections (values ++ [(other, v)])
        = (s.withSections values).withSection other v := List.foldl_append
    rw [hlast, List.filter_append]
    by_cases hsec : other = sec
    · subst hsec
      simp
    · rw [get?_withSection_of_ne _ (Ne.symm hsec), ih]
      simp [hsec]

/-! ## The root and the provider -/

/-- The key of the root below which a section lies. -/
def rootKey : Section → String
  | .custom => "custom"
  | .environment => "provider"

/-- A write to a section writes one key of the root. -/
theorem withSection_eq (s : Service) (sec : Section) (v : Value) :
    ∃ w, s.withSection sec v = ⟨.object (Fields.insert s.document.entries (rootKey sec) w)⟩ := by
  cases sec with
  | custom => exact ⟨v, rfl⟩
  | environment => exact ⟨_, rfl⟩

/-- An object at the root stays one, and of its keys only those of the two sections are
written to. -/
theorem exists_root_withSections {s : Service} {root : Fields} (h : s.document = .object root)
    (values : List (Section × Value)) :
    ∃ root', (s.withSections values).document = .object root'
      ∧ Fields.GrowsAt ["custom", "provider"] root root' := by
  induction values generalizing s root with
  | nil => exact ⟨root, h, .refl _ root⟩
  | cons entry rest ih =>
    -- the first write leaves an object, to which the other writes go
    obtain ⟨w, hwrite⟩ := s.withSection_eq entry.1 entry.2
    have hkey : rootKey entry.1 ∈ ["custom", "provider"] := by cases entry.1 <;> decide
    rw [h] at hwrite
    obtain ⟨root', hroot', hgrows⟩ := ih (congrArg document hwrite)
    exact ⟨root', hroot', (Fields.GrowsAt.insert hkey root w).trans hgrows⟩

/-- A provider that is an object stays one, and of its keys only the environment is written
to. -/
theorem exists_provider_withSection {s : Service} {provider : Fields}
    (h : s.document.get? "provider" = some (.object provider)) (sec : Section) (v : Value) :
    ∃ provider', (s.withSection sec v).document.get? "provider" = some (.object provider')
      ∧ Fields.GrowsAt ["environment"] provider provider' := by
  cases sec with
  | custom => exact ⟨provider, (s.get?_withCustom_of_ne (by decide) v).trans h, .refl _ provider⟩
  | environment =>
    refine ⟨Fields.insert provider "environment" v, ?_, .insert List.mem_cons_self provider v⟩
    rw [Value.get?_eq_get?_entries] at h
    show Fields.get? (Fields.insert _ "provider" _) "provider" = _
    rw [Fields.get?_insert_self, h]
    rfl

theorem exists_provider_withSections {s : Service} {provider : Fields}
    (h : s.document.get? "provider" = some (.object provider))
    (values : List (Section × Value)) :
    ∃ provider', (s.withSections values).document.get? "provider" = some (.object provider')
      ∧ Fields.GrowsAt ["environment"] provider provider' := by
  induction values generalizing s provider with
  | nil => exact ⟨provider, h, .refl _ provider⟩
  | cons entry rest ih =>
    obtain ⟨between, hbetween, hfirst⟩ := exists_provider_withSection h entry.1 entry.2
    obtain ⟨provider', hprovider', hrest⟩ := ih hbetween
    exact ⟨provider', hprovider', hfirst.trans hrest⟩

/-! ## Any history -/

/-- **Writes touch the two sections and nothing else.** After any history, whatever document
it starts from, each section holds what was written to it last, or what it held before if
nothing was; the stage and the plugins are those of the start. If the root was an object, it
is one still: all its keys but `custom` and `provider` hold what they held, and keys stand in
their old order with new ones behind. If the provider was an object, the same holds of it for
all its keys but `environment`. A history that writes nothing leaves the service as it was. -/
theorem writeAll_frame (s : Service) (history : List Write) :
    (∀ sec, (s.writeAll history).get? sec = (lastWritten sec history).or (s.get? sec))
    ∧ (s.writeAll history).declaredStage = s.declaredStage
    ∧ (s.writeAll history).plugins = s.plugins
    ∧ (∀ root, s.document = .object root →
        ∃ root', (s.writeAll history).document = .object root'
          ∧ Fields.GrowsAt ["custom", "provider"] root root')
    ∧ (∀ provider, s.document.get? "provider" = some (.object provider) →
        ∃ provider', (s.writeAll history).document.get? "provider" = some (.object provider')
          ∧ Fields.GrowsAt ["environment"] provider provider')
    ∧ ((∀ w ∈ history, w.written = []) → s.writeAll history = s) := by
  rw [writeAll_eq]
  refine ⟨s.get?_withSections _, eq_of_withSections declaredStage_withSection s _,
    eq_of_withSections plugins_withSection s _, fun _ h => exists_root_withSections h _,
    fun _ h => exists_provider_withSections h _, fun h => ?_⟩
  rw [List.flatMap_eq_nil_iff.mpr h]
  rfl

/-- A root that is no object and a provider that is none give way to objects. -/
example :
    (writeAll ⟨.array [.null]⟩ [.environment .null, .changes ⟨.kept, .replaced (.bool true)⟩,
      .named .custom (.string "a")]).document
      = .object [("provider", .object [("environment", .bool true)]), ("custom", .string "a")] := by
  decide

end Service

end StageVars

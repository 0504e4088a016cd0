import StageVars.Files.ServiceFiles
import StageVars.Proofs.Files.Extension
import StageVars.Proofs.Files.Writing
/-!
# StageVars.Proofs.Files.Modules -- module sources that are not allowed

While modules are not allowed, what a module source contains is never looked at. A path with
another extension cannot lead to one, since it ends as the file's own name does. So two
directories that differ in what module sources contain, and in nothing else, give the same
answers.

* `Directory.SameBesideModules`: what such directories share.
* `view_eq_of_sameBesideModules`: they have the same view.
* `content_of_isModule`: a module source is refused or not there.
-/

namespace StageVars

/-- A path of a module source, or the name of one. -/
def Path.IsModule (path : String) : Prop := ∃ stem, path = stem ++ "." ++ Extension.js.name

/-- The extension of a path is that of a module source when the path is one. -/
theorem Path.isModule_iff (path : String) : IsModule path ↔ Extension.ofPath? path = some .js :=
  (Extension.ofPath?_eq_some_iff path .js).symm

/-- A route that ends with the name of a module source. -/
def Route.IsModule (route : Route) : Prop := ∃ name ∈ route.getLast?, Path.IsModule name

namespace Directory

/-- Two directories have the same files and directories, and the files hold the same, except
that module sources may contain anything. -/
structure SameBesideModules (d d' : Directory) : Prop where
  here : d'.here = d.here
  find? : ∀ route, d'.find? route = d.find? route
    ∨ route.IsModule
      ∧ (∃ content, d.find? route = some (.file content))
      ∧ ∃ content, d'.find? route = some (.file content)

/-- A module source that is written to makes a directory that is the same but for it. -/
theorem sameBesideModules_insert {d : Directory} {route : Route} (hmodule : route.IsModule)
    {content : Option String} (h : d.find? route = some (.file content))
    (content' : Option String) : d.SameBesideModules (d.insert route (.file content')) where
  here := here_insert d route _
  find? other := by
    have htakes := takesFile_of_file h
    by_cases hother : other = route
    · subst hother
      exact Or.inr ⟨hmodule, ⟨content, h⟩, content', htakes.find?_insert_self content'⟩
    · exact Or.inl (htakes.find?_insert_of_ne hother content')

namespace SameBesideModules

variable {d d' : Directory}

theorem isDirectory (h : d.SameBesideModules d') (route : Route) :
    d'.isDirectory route = d.isDirectory route := by
  rw [Bool.eq_iff_iff, isDirectory_eq_true_iff, isDirectory_eq_true_iff]
  rcases h.find? route with heq | ⟨-, ⟨c, hfile⟩, c', hfile'⟩
  · rw [heq]
  · rw [hfile, hfile']
    exact iff_of_false nofun nofun

theorem isSome_find? (h : d.SameBesideModules d') (route : Route) :
    (d'.find? route).isSome = (d.find? route).isSome := by
  rcases h.find? route with heq | ⟨-, ⟨c, hfile⟩, c', hfile'⟩
  · rw [heq]
  · rw [hfile, hfile']
    rfl

/-- A step goes the same way in both. -/
theorem step (h : d.SameBesideModules d') (route : Route) (component : String) :
    d'.step route component = d.step route component := by
  rw [Directory.step, Directory.step, h.isDirectory route]
  cases hdir : d.isDirectory route with
  | true => rfl
  | false =>
    have hfind : d.find? route = d.listed? route := by rw [Directory.find?, hdir]; rfl
    have hfind' : d'.find? route = d'.listed? route := by
      rw [Directory.find?, h.isDirectory route, hdir]; rfl
    rw [← hfind, ← hfind', h.isSome_find? route]

theorem follow (h : d.SameBesideModules d') (route : Route) (components : List String) :
    d'.follow route components = d.follow route components := by
  induction components generalizing route with
  | nil => rfl
  | cons c rest ih =>
    rw [Directory.follow, Directory.follow, h.step route c]
    exact bind_congr fun route' => ih route'

/-- A path leads the same way in both. -/
theorem follow_origin (h : d.SameBesideModules d') (path : String) :
    d'.follow (d'.origin path) (Path.components path)
      = d.follow (d.origin path) (Path.components path) := by
  rw [origin, origin, h.here, h.follow]

end SameBesideModules

end Directory

namespace Extension

/-- An extension as it ends a path. -/
def ending (e : Extension) : String := "." ++ e.name

theorem not_mem_ending (e : Extension) : '/' ∉ e.ending.toList := by
  cases e <;> decide

/-- A path with an extension ends with it, seen from any directory. -/
theorem toList_join_of_ofPath? {path : String} {e : Extension} (h : ofPath? path = some e)
    (root : String) : ∃ before, (Path.join root path).toList = before ++ e.ending.toList := by
  obtain ⟨stem, rfl⟩ := (ofPath?_eq_some_iff path e).mp h
  obtain ⟨before, hjoin⟩ := Path.toList_join root (stem ++ "." ++ e.name)
  refine ⟨before ++ stem.toList, ?_⟩
  rw [hjoin, ending, String.append_assoc, String.toList_append, List.append_assoc]

/-- A name has one ending. -/
theorem eq_of_suffix {e e' : Extension} {name : List Char} (h : e.ending.toList <:+ name)
    (h' : e'.ending.toList <:+ name) : e = e' := by
  have hends := List.suffix_or_suffix_of_suffix h h'
  revert hends
  cases e <;> cases e' <;> decide

/-- A name with an ending is a name to go down by. -/
theorem ne_of_suffix {e : Extension} {name : String} (h : e.ending.toList <:+ name.toList) :
    name ≠ "" ∧ name ≠ "." ∧ name ≠ ".." := by
  have hall : ¬ e.ending.toList <:+ "".toList ∧ ¬ e.ending.toList <:+ ".".toList
      ∧ ¬ e.ending.toList <:+ "..".toList := by
    cases e <;> decide
  refine ⟨?_, ?_, ?_⟩ <;> rintro rfl
  · exact hall.1 h
  · exact hall.2.1 h
  · exact hall.2.2 h

end Extension

namespace Directory

/-- What a path with an extension leads to has a name with that extension. -/
theorem exists_name_of_follow {d : Directory} {path : String} {before : List Char}
    {e : Extension} (hpath : path.toList = before ++ e.ending.toList) {route : Route}
    (h : d.follow (d.origin path) (Path.components path) = .ok route) :
    ∃ name, route.getLast? = some name ∧ e.ending.toList <:+ name.toList := by
  obtain ⟨way, name, hcomponents, hname⟩ := Path.components_concat before e.not_mem_ending hpath
  rw [hcomponents, follow_concat] at h
  obtain ⟨parent, -, hstep⟩ := bind_eq_ok_iff.mp h
  obtain ⟨-, rfl⟩ := eq_concat_of_step (Extension.ne_of_suffix hname) hstep
  exact ⟨name, List.getLast?_concat, hname⟩

namespace SameBesideModules

variable {d d' : Directory}

/-- Both directories hold something under a path, or neither does. -/
theorem isSome_lookup? (h : d.SameBesideModules d') (path : String) :
    (d'.lookup? path).isSome = (d.lookup? path).isSome := by
  rw [Directory.lookup?, Directory.lookup?, h.follow_origin]
  split
  · rfl
  · split
    · exact h.isSome_find? _
    · rfl

/-- Both directories hold the same under a path with another extension than that of module
sources. -/
theorem lookup?_of_ending (h : d.SameBesideModules d') {path : String} {before : List Char}
    {e : Extension} (hpath : path.toList = before ++ e.ending.toList) (he : e ≠ .js) :
    d'.lookup? path = d.lookup? path := by
  rw [Directory.lookup?, Directory.lookup?, h.follow_origin]
  split
  · rfl
  · split
    next route hfollow =>
      rcases h.find? route with heq | ⟨⟨name, hname, stem, hmodule⟩, -⟩
      · exact heq
      · -- the name that the path ends with would have two extensions
        obtain ⟨name', hname', hsuffix⟩ := exists_name_of_follow hpath hfollow
        obtain rfl : name = name' := Option.some.inj (hname.symm.trans hname')
        have hmodule' : Extension.js.ending.toList <:+ name.toList := by
          refine ⟨stem.toList, ?_⟩
          rw [hmodule, String.append_assoc, String.toList_append]
          rfl
        exact absurd (Extension.eq_of_suffix hsuffix hmodule') he
    next => rfl

end SameBesideModules

end Directory

namespace ServiceFiles

/-- While modules are not allowed, a module source is refused if it is there, and otherwise
reads as nothing. -/
theorem content_of_isModule (dir : ServiceFiles) (hmodules : dir.modules = none)
    {path : String} (h : Path.IsModule path) :
    dir.content path
      = if dir.present path then .error (.moduleRefused path) else .ok none := by
  have hdecoded : dir.decoded path .js = .error (.moduleRefused path) := by
    -- decoding refuses before it looks at the text
    rw [decoded, evaluation, hmodules]
    rfl
  simp only [content, (Path.isModule_iff path).mp h, hdecoded]
  cases dir.present path <;> rfl

variable {d d' : Directory}

theorem present_eq_of_sameBesideModules (h : d.SameBesideModules d') (root path : String) :
    (⟨d', root, none⟩ : ServiceFiles).present path
      = (⟨d, root, none⟩ : ServiceFiles).present path := by
  rw [present, present, Directory.contains, Directory.contains, h.isSome_lookup?]

/-- The text of a file with another extension than that of module sources. -/
theorem text_eq_of_sameBesideModules (h : d.SameBesideModules d') (root : String)
    {path : String} {e : Extension} (hpath : Extension.ofPath? path = some e) (he : e ≠ .js) :
    (⟨d', root, none⟩ : ServiceFiles).text path
      = (⟨d, root, none⟩ : ServiceFiles).text path := by
  obtain ⟨before, hending⟩ := Extension.toList_join_of_ofPath? hpath root
  rw [text, text, h.lookup?_of_ending hending he]

/-- **Module sources that are not allowed cannot be told apart.** Two directories that differ
only in what module sources contain give the same answers to all questions. -/
theorem view_eq_of_sameBesideModules (h : d.SameBesideModules d') (root : String) :
    (⟨d', root, none⟩ : ServiceFiles).view = (⟨d, root, none⟩ : ServiceFiles).view := by
  have hpresent (path : String) := present_eq_of_sameBesideModules h root path
  have hcontent (path : String) : (⟨d', root, none⟩ : ServiceFiles).content path
      = (⟨d, root, none⟩ : ServiceFiles).content path := by
    rw [content, content, hpresent path]
    cases hext : Extension.ofPath? path with
    | none => rfl
    | some e =>
      by_cases he : e = .js
      · subst he
        rfl
      · have hdecoded : (⟨d', root, none⟩ : ServiceFiles).decoded path e
            = (⟨d, root, none⟩ : ServiceFiles).decoded path e := by
          rw [decoded, decoded, text_eq_of_sameBesideModules h root hext he]
          rfl
        simp only [hdecoded]
  simp only [view, FileView.mk.injEq]
  exact ⟨funext hpresent, funext hcontent⟩

end ServiceFiles

end StageVars

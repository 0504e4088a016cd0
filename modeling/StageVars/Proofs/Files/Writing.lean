import StageVars.Files.Directory
import StageVars.Proofs.Lookup.Composing
/-!
# StageVars.Proofs.Files.Writing -- what lies where after a file was written

A path leads to a place by steps from directories. A file can be put where the way is there and no
directory lies. Putting it there makes no directory and removes none, so that every path that could
be followed can be followed as before, the written file is found under its path, and whatever lies
anywhere else stays.

* `step_eq_ok`: what one step can do.
* `TakesFile`: where a file can be put; `isDirectory_insert`, `find?_insert_of_ne`: what stays.
* `of_target`: where a path leads under which a file can be written.
* `lookup?_insert`: the file is found there afterwards.
-/

namespace StageVars

namespace Directory

variable {d : Directory} {route other : Route}

/-! ## Entries -/

theorem listed?_insert_self (d : Directory) (route : Route) (e : Entry) :
    (d.insert route e).listed? route = some e := by
  obtain ⟨entries, here⟩ := d
  rw [insert]
  split
  next h =>
    simp only [listed?] at h ⊢
    induction entries with
    | nil => cases h
    | cons entry rest ih =>
      obtain ⟨r, old⟩ := entry
      rw [List.map_cons, List.lookup_cons]
      by_cases hr : route = r
      · simp [hr]
      · rw [List.lookup_cons] at h
        rw [beq_eq_false_iff_ne.mpr hr] at h ⊢
        exact ih h
  next h =>
    have hnone : entries.lookup route = none := Option.not_isSome_iff_eq_none.mp h
    rw [listed?, List.lookup_append, hnone]
    simp

theorem listed?_insert_of_ne (hother : other ≠ route) (d : Directory) (e : Entry) :
    (d.insert route e).listed? other = d.listed? other := by
  rw [insert]
  split
  next =>
    rw [listed?, listed?]
    induction d.entries with
    | nil => rfl
    | cons entry rest ih =>
      obtain ⟨r, old⟩ := entry
      rw [List.map_cons, List.lookup_cons, List.lookup_cons, ih]
      by_cases hr : other = r
      · subst hr
        simp [hother]
      · rw [beq_eq_false_iff_ne.mpr hr]
  next =>
    rw [listed?, listed?, List.lookup_append, List.lookup_cons, beq_eq_false_iff_ne.mpr hother]
    simp

theorem here_insert (d : Directory) (route : Route) (e : Entry) :
    (d.insert route e).here = d.here := by
  rw [insert]
  split <;> rfl

/-- The routes that are listed. -/
def routes (d : Directory) : List Route := d.entries.map Prod.fst

theorem mem_routes_of_listed? {e : Entry} (h : d.listed? route = some e) : route ∈ d.routes := by
  obtain ⟨before, after, hentries, -⟩ := List.lookup_eq_some_iff.mp h
  simp [routes, hentries]

theorem mem_routes_insert (d : Directory) (route : Route) (e : Entry) (other : Route) :
    other ∈ (d.insert route e).routes ↔ other ∈ d.routes ∨ other = route := by
  rw [insert]
  split
  next h =>
    obtain ⟨old, hold⟩ := Option.isSome_iff_exists.mp h
    simp only [routes, List.map_map, Function.comp_def]
    refine (or_iff_left_of_imp ?_).symm
    rintro rfl
    exact mem_routes_of_listed? hold
  next => simp [routes]

/-- A directory is the root, is listed, or lies on the way to something that is listed. -/
theorem isDirectory_iff (d : Directory) (route : Route) :
    d.isDirectory route = true
      ↔ route = [] ∨ d.listed? route = some .directory
        ∨ ∃ r ∈ d.routes, route.length < r.length ∧ route <+: r := by
  simp [isDirectory, routes, or_assoc]

theorem isDirectory_eq_true_iff (d : Directory) (route : Route) :
    d.isDirectory route = true ↔ d.find? route = some .directory := by
  rw [find?]
  split
  next h => exact iff_of_true h rfl
  next h =>
    refine iff_of_false h fun hlisted => h ?_
    exact (d.isDirectory_iff route).mpr (.inr (.inl hlisted))

/-- What lies on the way to a directory is one. -/
theorem isDirectory_of_prefix (h : d.isDirectory route = true) (hway : other <+: route) :
    d.isDirectory other = true := by
  by_cases hlength : other.length < route.length
  · rw [isDirectory_iff] at h ⊢
    rcases h with rfl | hlisted | ⟨r, hr, hbelow, hbefore⟩
    · exact absurd hlength (Nat.not_lt_zero _)
    · exact .inr (.inr ⟨route, mem_routes_of_listed? hlisted, hlength, hway⟩)
    · exact .inr (.inr ⟨r, hr, Nat.lt_trans hlength hbelow, hway.trans hbefore⟩)
  · rwa [hway.eq_of_length_le (Nat.le_of_not_lt hlength)]

/-! ## Where a file can be put -/

/-- A file can be put under a route: no directory lies there, but all the way there are
directories. -/
structure TakesFile (d : Directory) (route : Route) : Prop where
  free : d.isDirectory route = false
  way : ∀ other, other.length < route.length → other <+: route → d.isDirectory other = true

/-- It can where a file lies. -/
theorem takesFile_of_file {content : Option String} (h : d.find? route = some (.file content)) :
    d.TakesFile route := by
  have hfree : d.isDirectory route = false := by
    rw [Bool.eq_false_iff, ne_eq, isDirectory_eq_true_iff, h]
    nofun
  have hlisted : d.listed? route = some (.file content) := by rwa [find?, hfree] at h
  exact ⟨hfree, fun other hlength hway => (d.isDirectory_iff other).mpr
    (.inr (.inr ⟨route, mem_routes_of_listed? hlisted, hlength, hway⟩))⟩

/-- It can in a directory, where no other directory lies. -/
theorem takesFile_concat {name : String} (hparent : d.isDirectory route = true)
    (hfree : d.isDirectory (route ++ [name]) = false) : d.TakesFile (route ++ [name]) := by
  refine ⟨hfree, fun other hlength hway => isDirectory_of_prefix hparent ?_⟩
  refine (List.prefix_concat_iff.mp hway).resolve_left ?_
  rintro rfl
  exact Nat.lt_irrefl _ hlength

namespace TakesFile

/-- Putting a file there leaves the same directories. -/
theorem isDirectory_insert (h : d.TakesFile route) (content : Option String) (other : Route) :
    (d.insert route (.file content)).isDirectory other = d.isDirectory other := by
  rw [Bool.eq_iff_iff, isDirectory_iff, isDirectory_iff]
  by_cases hother : other = route
  · -- nothing is listed below the file
    subst hother
    have hfree := h.free
    rw [Bool.eq_false_iff, ne_eq, isDirectory_iff, not_or, not_or] at hfree
    refine iff_of_false ?_ (by simpa [not_or] using hfree)
    rw [listed?_insert_self]
    rintro (hroot | hlisted | ⟨r, hr, hbelow, hbefore⟩)
    · exact hfree.1 hroot
    · cases hlisted
    · rcases (mem_routes_insert d other _ r).mp hr with hr | rfl
      · exact hfree.2.2 ⟨r, hr, hbelow, hbefore⟩
      · exact Nat.lt_irrefl _ hbelow
  · rw [listed?_insert_of_ne hother]
    constructor
    · rintro (hroot | hlisted | ⟨r, hr, hbelow, hbefore⟩)
      · exact .inl hroot
      · exact .inr (.inl hlisted)
      · rcases (mem_routes_insert d route _ r).mp hr with hr | rfl
        · exact .inr (.inr ⟨r, hr, hbelow, hbefore⟩)
        · exact (d.isDirectory_iff other).mp (h.way other hbelow hbefore)
    · refine Or.imp_right (Or.imp_right ?_)
      rintro ⟨r, hr, hbelow⟩
      exact ⟨r, (mem_routes_insert d route _ r).mpr (.inl hr), hbelow⟩

theorem find?_insert_self (h : d.TakesFile route) (content : Option String) :
    (d.insert route (.file content)).find? route = some (.file content) := by
  rw [find?, h.isDirectory_insert, h.free, listed?_insert_self]
  rfl

theorem find?_insert_of_ne (h : d.TakesFile route) (hother : other ≠ route)
    (content : Option String) : (d.insert route (.file content)).find? other = d.find? other := by
  rw [find?, find?, h.isDirectory_insert, listed?_insert_of_ne hother]

end TakesFile

/-! ## Following paths -/

/-- A step is from a directory. It stays, goes up, or goes down by a name. -/
theorem step_eq_ok {component : String} (h : d.step route component = .ok other) :
    d.isDirectory route = true
      ∧ ((component = "" ∨ component = ".") ∧ other = route
        ∨ component = ".." ∧ other = route.dropLast
        ∨ (component ≠ "" ∧ component ≠ "." ∧ component ≠ "..") ∧ other = route ++ [component]) := by
  rw [step] at h
  split at h
  next => cases h
  next hdir =>
    refine ⟨by simpa using hdir, ?_⟩
    split at h
    next hstay =>
      cases h
      exact .inl ⟨by simpa using hstay, rfl⟩
    next hgo =>
      obtain ⟨hempty, hdot⟩ : component ≠ "" ∧ component ≠ "." := by simpa using hgo
      split at h
      next hup =>
        cases h
        exact .inr (.inl ⟨by simpa using hup, rfl⟩)
      next hdown =>
        split at h
        next => cases h
        next =>
          cases h
          exact .inr (.inr ⟨⟨hempty, hdot, by simpa using hdown⟩, rfl⟩)

/-- A step by a name goes down to what has that name. -/
theorem eq_concat_of_step {name : String} (hname : name ≠ "" ∧ name ≠ "." ∧ name ≠ "..")
    (h : d.step route name = .ok other) : d.isDirectory route = true ∧ other = route ++ [name] := by
  obtain ⟨hdir, ⟨hstay, -⟩ | ⟨hup, -⟩ | ⟨-, hdown⟩⟩ := step_eq_ok h
  · exact absurd hstay (not_or.mpr ⟨hname.1, hname.2.1⟩)
  · exact absurd hup hname.2.2
  · exact ⟨hdir, hdown⟩

theorem follow_concat (d : Directory) (route : Route) (way : List String) (name : String) :
    d.follow route (way ++ [name]) = d.follow route way >>= fun route' => d.step route' name := by
  induction way generalizing route with
  | nil => exact bind_pure (d.step route name)
  | cons c rest ih =>
    rw [List.cons_append, follow, follow, bind_assoc]
    exact bind_congr fun route' => ih route'

variable {d' : Directory}

theorem step_of_isDirectory (h : ∀ r, d'.isDirectory r = d.isDirectory r) {component : String}
    (hstep : d.step route component = .ok other) : d'.step route component = .ok other := by
  have hdir := (step_eq_ok hstep).1
  simp only [step, h, hdir] at hstep ⊢
  exact hstep

/-- A path that can be followed leads to the same place while directories stay. -/
theorem follow_of_isDirectory (h : ∀ r, d'.isDirectory r = d.isDirectory r)
    {components : List String} (hfollow : d.follow route components = .ok other) :
    d'.follow route components = .ok other := by
  induction components generalizing route with
  | nil => exact hfollow
  | cons c rest ih =>
    obtain ⟨next, hstep, hrest⟩ := bind_eq_ok_iff.mp hfollow
    rw [follow, step_of_isDirectory h hstep]
    exact ih hrest

/-! ## Writing -/

/-- A list that does not end with an empty text loses none when it is read from its end. -/
theorem dropWhile_isEmpty_reverse {components : List String} (h : components.getLast? ≠ some "") :
    components.reverse.dropWhile String.isEmpty = components.reverse := by
  rw [List.getLast?_eq_head?_reverse] at h
  cases hreverse : components.reverse with
  | nil => rfl
  | cons name way =>
    rw [hreverse] at h
    exact List.dropWhile_cons_of_neg fun hempty => h (by simp [String.isEmpty_iff.mp hempty])

/-- A path under which a file can be written can be followed to its end, and there a file can be
put. -/
theorem of_target {path : String} (h : d.target path = .ok route) :
    Path.isUnusable path = false
      ∧ d.follow (d.origin path) (Path.components path) = .ok route ∧ d.TakesFile route := by
  rw [target] at h
  split at h
  next => cases h
  next husable =>
    refine ⟨Bool.eq_false_iff.mpr husable, ?_⟩
    dsimp only at h
    split at h
    next => cases h
    next name way htrimmed =>
      obtain ⟨parent, hway, h⟩ := bind_eq_ok_iff.mp h
      obtain ⟨end', hstep, h⟩ := bind_eq_ok_iff.mp h
      split at h
      next => cases h
      next hplain =>
        cases h
        simp only [Bool.or_eq_true, beq_iff_eq, not_or, Bool.not_eq_true] at hplain
        obtain ⟨⟨⟨hdot, hup⟩, hend⟩, hfree⟩ := hplain
        rw [dropWhile_isEmpty_reverse hend] at htrimmed
        have hcomponents : Path.components path = way.reverse ++ [name] := by
          rw [← List.reverse_inj, htrimmed]
          simp
        have hempty : name ≠ "" := by
          rintro rfl
          exact hend (by simp [hcomponents])
        obtain ⟨hparent, rfl⟩ := eq_concat_of_step ⟨hempty, hdot, hup⟩ hstep
        refine ⟨?_, takesFile_concat hparent hfree⟩
        rw [hcomponents, follow_concat, hway]
        exact hstep

/-- A file that was written lies where its path leads. -/
theorem lookup?_insert {path : String} (h : d.target path = .ok route) (content : Option String) :
    (d.insert route (.file content)).lookup? path = some (.file content) := by
  obtain ⟨husable, hfollow, htakes⟩ := of_target h
  have horigin : (d.insert route (.file content)).origin path = d.origin path := by
    rw [origin, origin, here_insert]
  rw [lookup?, husable, horigin, follow_of_isDirectory (htakes.isDirectory_insert content) hfollow]
  exact htakes.find?_insert_self content

end Directory

end StageVars

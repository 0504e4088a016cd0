import StageVars.Proofs.Reference.Grammar
import StageVars.Proofs.Reference.LastSplit
/-!
# StageVars.Proofs.Reference.Reader -- what the reader of references accepts

The reader takes the last closing parenthesis that leaves a path and a member, and walks
back through the name to the last slash that leaves a file name.

* `lastCut?_eq_some_iff`, `cutDirectory_spec`: what the two searches find.
* `parse?_eq_some_iff`: the reader reads exactly what `Reads` describes.
-/

namespace StageVars

namespace Reference

/-! ## The parts of the reader -/

theorem stripLead?_eq_some_iff (lead cs rest : List Char) :
    stripLead? lead cs = some rest ↔ cs = lead ++ rest := by
  induction lead generalizing cs with
  | nil => simp [stripLead?]
  | cons l lead ih =>
    cases cs with
    | nil => simp [stripLead?]
    | cons c cs =>
      by_cases h : l = c
      · subst h
        simp [stripLead?, ih]
      · simp [stripLead?, h, Ne.symm h]

theorem member?_eq_some_iff (cs : List Char) (m : Option (List Char)) :
    member? cs = some m ↔ cs = memberPart m ++ ['\x7d'] := by
  constructor
  · intro h
    rw [member?] at h
    split at h
    next body hbody =>
      have hcs : cs = body.reverse ++ ['\x7d'] := by
        rw [← cs.reverse_reverse, hbody, List.reverse_cons]
      rw [hcs]
      split at h
      next hnil => cases h; rw [hnil]; rfl
      next name hname => cases h; rw [hname]; rfl
      next => cases h
    next => cases h
  · rintro rfl
    rw [member?, List.reverse_append]
    cases m <;> simp [memberPart]

theorem splitExtension?_suffix (e : Extension) (c : Char) (name : List Char) :
    splitExtension? ((suffix e).reverse ++ c :: name) = some (c :: name, e) := by
  cases e <;> rfl

theorem splitExtension?_eq_some_iff (reversed name : List Char) (e : Extension) :
    splitExtension? reversed = some (name, e)
      ↔ name ≠ [] ∧ reversed = (suffix e).reverse ++ name := by
  constructor
  · intro h
    obtain ⟨e', -, he'⟩ := List.exists_of_findSome?_eq_some h
    split at he'
    next c rest hstrip =>
      cases he'
      exact ⟨List.cons_ne_nil _ _, (stripLead?_eq_some_iff _ _ _).mp hstrip⟩
    next => cases he'
  · rintro ⟨hname, rfl⟩
    obtain ⟨c, rest, rfl⟩ := List.exists_cons_of_ne_nil hname
    exact splitExtension?_suffix e c rest

/-- What is found at a closing parenthesis: `seen` is what stands before it, reversed. -/
def closing? (seen after : List Char) : Option (List Char × Extension × Option (List Char)) := do
  let rest ← stripLead? [')'] after
  let (name, e) ← splitExtension? seen
  return (name, e, ← member? rest)

theorem closing?_eq_some_iff (seen after name : List Char) (e : Extension)
    (m : Option (List Char)) :
    closing? seen after = some (name, e, m)
      ↔ name ≠ [] ∧ seen = (suffix e).reverse ++ name
        ∧ after = ')' :: (memberPart m ++ ['\x7d']) := by
  simp only [closing?, Option.bind_eq_bind, Option.bind_eq_some_iff, Option.pure_def,
    Option.some.injEq, Prod.exists, Prod.mk.injEq, stripLead?_eq_some_iff,
    splitExtension?_eq_some_iff, member?_eq_some_iff, List.singleton_append]
  constructor
  · rintro ⟨_, rfl, _, _, ⟨hname, hseen⟩, _, rfl, rfl, rfl, rfl⟩
    exact ⟨hname, hseen, rfl⟩
  · rintro ⟨hname, hseen, rfl⟩
    exact ⟨_, rfl, _, _, ⟨hname, hseen⟩, _, rfl, rfl, rfl, rfl⟩

/-- The reader looks for the last closing parenthesis that leaves a path and a member. -/
theorem lastCut?_eq (seen cs : List Char) :
    lastCut? seen cs
      = lastSplit? (fun before after => closing? (before.reverse ++ seen) after) cs := by
  induction cs generalizing seen with
  | nil => rfl
  | cons c rest ih =>
    -- the test at this place, where only a parenthesis is found
    have hhere : (if c = ')' then do
        let (name, e) ← splitExtension? seen
        return (name, e, ← member? rest)
      else none) = closing? seen (c :: rest) := by
      by_cases hc : c = ')'
      · subst hc
        rfl
      · simp [closing?, stripLead?, hc, Ne.symm hc]
    rw [lastCut?, lastSplit?, ih, hhere]
    simp only [List.reverse_cons, List.append_assoc, List.singleton_append, List.reverse_nil,
      List.nil_append]
    split <;> simp [*]

theorem closing?_reverse_eq_some_iff (before after : List Char) (c : Cut) :
    closing? before.reverse after = some (c.name.reverse, c.extension, c.member)
      ↔ c.name ≠ [] ∧ before = c.path ∧ after = c.rest := by
  rw [closing?_eq_some_iff, ← List.reverse_append, List.reverse_inj, ne_eq,
    List.reverse_eq_nil_iff]
  rfl

theorem exists_cut_of_closing? {before after : List Char}
    {found : List Char × Extension × Option (List Char)}
    (h : closing? before.reverse after = some found) :
    ∃ c : Cut, c.name ≠ [] ∧ before = c.path ∧ after = c.rest := by
  obtain ⟨name, e, m⟩ := found
  rw [← name.reverse_reverse] at h
  exact ⟨_, (closing?_reverse_eq_some_iff before after ⟨name.reverse, e, m⟩).mp h⟩

/-- The reader finds the cut with the longest path. -/
theorem lastCut?_eq_some_iff (body : List Char) (c : Cut) :
    lastCut? [] body = some (c.name.reverse, c.extension, c.member)
      ↔ c.Longest (opening ++ body) := by
  rw [lastCut?_eq, lastSplit?_eq_some_iff]
  simp only [List.append_nil, Cut.Longest, Cut.fits_opening_iff]
  constructor
  · rintro ⟨before, after, rfl, hclosing, hlater⟩
    obtain ⟨hname, rfl, rfl⟩ := (closing?_reverse_eq_some_iff before after c).mp hclosing
    refine ⟨⟨hname, rfl⟩, ?_⟩
    rintro other ⟨hother, hbody⟩
    refine Nat.le_of_not_lt fun hlonger => ?_
    have hnone := hlater other.path other.rest hbody hlonger
    rw [(closing?_reverse_eq_some_iff other.path other.rest other).mpr ⟨hother, rfl, rfl⟩] at hnone
    cases hnone
  · rintro ⟨⟨hname, rfl⟩, hlongest⟩
    refine ⟨c.path, c.rest, rfl, (closing?_reverse_eq_some_iff _ _ c).mpr ⟨hname, rfl, rfl⟩, ?_⟩
    intro before after hbody hlonger
    cases hclosing : closing? before.reverse after with
    | none => rfl
    | some found =>
      obtain ⟨other, hother, rfl, rfl⟩ := exists_cut_of_closing? hclosing
      exact absurd (hlongest other ⟨hother, hbody⟩) (Nat.not_le_of_lt hlonger)

/-- The reader finds no cut exactly when none fits. -/
theorem lastCut?_eq_none_iff (body : List Char) :
    lastCut? [] body = none ↔ ∀ c : Cut, ¬ c.Fits (opening ++ body) := by
  rw [lastCut?_eq, lastSplit?_eq_none_iff]
  simp only [List.append_nil, Cut.fits_opening_iff]
  constructor
  · rintro h c ⟨hname, hbody⟩
    have hnone := h c.path c.rest hbody
    rw [(closing?_reverse_eq_some_iff _ _ c).mpr ⟨hname, rfl, rfl⟩] at hnone
    cases hnone
  · intro h before after hbody
    cases hclosing : closing? before.reverse after with
    | none => rfl
    | some found =>
      obtain ⟨c, hname, rfl, rfl⟩ := exists_cut_of_closing? hclosing
      exact (h c ⟨hname, hbody⟩).elim

/-! ## The directory -/

/-- Walking back through a name without finding a place to cut: there is none among the
characters walked through. -/
theorem cutDirectory_eq_none {fileName reversed whole : List Char}
    (h : cutDirectory fileName reversed = (none, whole)) :
    whole = reversed.reverse ++ fileName
      ∧ ∀ d file, d.length < reversed.length → reversed.reverse ++ fileName = d ++ '/' :: file →
        d = [] ∨ file = [] := by
  induction reversed generalizing fileName with
  | nil =>
    cases h
    exact ⟨rfl, fun d file hlt => absurd hlt (Nat.not_lt_zero _)⟩
  | cons c rest ih =>
    rw [cutDirectory] at h
    split at h
    next => cases h
    next hno =>
      obtain ⟨hwhole, hearlier⟩ := ih h
      have hsame : (c :: rest).reverse ++ fileName = rest.reverse ++ c :: fileName := by simp
      rw [hsame]
      refine ⟨hwhole, ?_⟩
      intro d file hlt hname
      rcases Nat.lt_succ_iff_lt_or_eq.mp hlt with hlt | heq
      · exact hearlier d file hlt hname
      · -- the cut at this very character
        obtain ⟨rfl, hhere⟩ := List.append_inj hname (by rw [List.length_reverse, heq])
        obtain ⟨rfl, rfl⟩ := List.cons.inj hhere
        simpa [Decidable.or_iff_not_imp_left] using hno

/-- Walking back through a name and cutting it: no later place among the characters walked
through would do. -/
theorem cutDirectory_eq_some {fileName reversed dir file : List Char}
    (h : cutDirectory fileName reversed = (some dir, file)) :
    ∃ d, dir = d ++ ['/'] ∧ reversed.reverse ++ fileName = d ++ '/' :: file ∧ d ≠ [] ∧ file ≠ []
      ∧ ∀ d' file', d'.length < reversed.length →
        reversed.reverse ++ fileName = d' ++ '/' :: file' → d' ≠ [] → file' ≠ [] →
          d'.length ≤ d.length := by
  induction reversed generalizing fileName with
  | nil => cases h
  | cons c rest ih =>
    have hsame : (c :: rest).reverse ++ fileName = rest.reverse ++ c :: fileName := by simp
    rw [hsame]
    rw [cutDirectory] at h
    split at h
    next hcut =>
      cases h
      obtain ⟨rfl, hrest, hfile⟩ := hcut
      refine ⟨rest.reverse, by simp, rfl, by simpa using hrest, by simpa using hfile, ?_⟩
      intro d' file' hlt _ _ _
      rw [List.length_reverse]
      exact Nat.le_of_lt_succ hlt
    next hno =>
      obtain ⟨d, hdir, hname, hd, hfile, hearlier⟩ := ih h
      refine ⟨d, hdir, hname, hd, hfile, ?_⟩
      intro d' file' hlt hname' hd' hfile'
      rcases Nat.lt_succ_iff_lt_or_eq.mp hlt with hlt | heq
      · exact hearlier d' file' hlt hname' hd' hfile'
      · obtain ⟨rfl, hhere⟩ := List.append_inj hname' (by rw [List.length_reverse, heq])
        obtain ⟨rfl, rfl⟩ := List.cons.inj hhere
        exact absurd ⟨rfl, by simpa using hd', by simpa using hfile'⟩ hno

/-- The reader cuts a name behind its longest directory. -/
theorem cutDirectory_spec (c : Cut) {dir? : Option (List Char)} {file : List Char}
    (h : cutDirectory [] c.name.reverse = (dir?, file)) :
    c.Directory dir? ∧ c.name = dir?.getD [] ++ file := by
  have hshorter (d rest : List Char) (hname : c.name = d ++ '/' :: rest) :
      d.length < c.name.reverse.length := by
    rw [hname, List.length_reverse, List.length_append, List.length_cons]
    omega
  cases dir? with
  | none =>
    obtain ⟨hfile, hnone⟩ := cutDirectory_eq_none h
    rw [List.reverse_reverse, List.append_nil] at hfile hnone
    refine ⟨?_, hfile.symm⟩
    intro dir hpart
    obtain ⟨d, rest, rfl, hname, hd, hrest⟩ := (c.directoryPart_iff dir).mp hpart
    exact (hnone d rest (hshorter d rest hname) hname).elim hd hrest
  | some dir =>
    obtain ⟨d, rfl, hname, hd, hfile, hlongest⟩ := cutDirectory_eq_some h
    rw [List.reverse_reverse, List.append_nil] at hname hlongest
    refine ⟨⟨(c.directoryPart_iff _).mpr ⟨d, file, rfl, hname, hd, hfile⟩, ?_⟩, by simp [hname]⟩
    intro other hpart
    obtain ⟨d', rest, rfl, hname', hd', hrest⟩ := (c.directoryPart_iff other).mp hpart
    have hle := hlongest d' rest (hshorter d' rest hname') hname' hd' hrest
    simpa using hle

/-! ## One reading -/

/-- A text has one longest cut. -/
theorem Cut.Longest.unique {c c' : Cut} {cs : List Char} (h : c.Longest cs) (h' : c'.Longest cs) :
    c = c' := by
  obtain ⟨⟨-, hcs⟩, -⟩ := id h
  rw [hcs] at h h'
  have hread := (lastCut?_eq_some_iff _ c).mpr h
  rw [(lastCut?_eq_some_iff _ c').mpr h', Option.some.injEq, Prod.mk.injEq, Prod.mk.injEq,
    List.reverse_inj] at hread
  cases c
  cases c'
  simp_all

theorem clear_opening_append {body : List Char} (hclear : '\n' ∉ body) :
    '\n' ∉ opening ++ body := by
  have hopening : '\n' ∉ opening := by decide
  exact fun hmem => (List.mem_append.mp hmem).elim hopening hclear

/-- The reader takes the last cut of what stands behind the opening, and cuts its name. -/
theorem parse?_opening {body : List Char} (hclear : '\n' ∉ body) :
    parse? (String.ofList (opening ++ body)) = (lastCut? [] body).map fun (reversed, e, m) =>
      Cut.reference ⟨reversed.reverse, e, m⟩ (cutDirectory [] reversed).1
        (cutDirectory [] reversed).2 := by
  have hstrip : stripLead? opening (opening ++ body) = some body :=
    (stripLead?_eq_some_iff _ _ _).mpr rfl
  have hcontains : (opening ++ body).contains '\n' = false := by
    simpa only [List.contains_eq_mem, decide_eq_false_iff_not] using clear_opening_append hclear
  rw [parse?, String.toList_ofList]
  simp only [hcontains, hstrip, Option.bind_eq_bind, Option.bind_some]
  cases lastCut? [] body with
  | none => rfl
  | some cut => rfl

/-- Only a text with the opening and without a line feed is read. -/
theorem exists_opening_of_parse? {s : String} (h : (parse? s).isSome) :
    ∃ body, '\n' ∉ body ∧ s = String.ofList (opening ++ body) := by
  by_cases hlf : '\n' ∈ s.toList
  · rw [parse?] at h
    simp [hlf] at h
  · cases hstrip : stripLead? opening s.toList with
    | none =>
      rw [parse?] at h
      simp [hstrip] at h
    | some body =>
      rw [stripLead?_eq_some_iff] at hstrip
      refine ⟨body, ?_, by rw [← hstrip, String.ofList_toList]⟩
      intro hmem
      exact hlf (hstrip ▸ List.mem_append_right opening hmem)

/-- What is read describes the cut with the longest path. -/
theorem parse?_reads {s : String} {r : Reference} (h : parse? s = some r) : Reads s r := by
  obtain ⟨body, hclear, rfl⟩ := exists_opening_of_parse? (Option.isSome_of_eq_some h)
  rw [parse?_opening hclear, Option.map_eq_some_iff] at h
  obtain ⟨⟨reversed, e, m⟩, hcut, rfl⟩ := h
  rw [← reversed.reverse_reverse] at hcut
  have hlongest := (lastCut?_eq_some_iff body ⟨reversed.reverse, e, m⟩).mp hcut
  obtain ⟨hdirectory, hname⟩ := cutDirectory_spec ⟨reversed.reverse, e, m⟩ (Prod.eta _).symm
  refine ⟨?_, ⟨reversed.reverse, e, m⟩, ?_, ?_⟩
  · rw [String.toList_ofList]
    exact clear_opening_append hclear
  · rwa [String.toList_ofList]
  · rw [List.reverse_reverse] at hdirectory hname
    exact Cut.describes_reference hdirectory hname

/-- A text is read exactly when some cut fits it and it has no line feed. -/
theorem parse?_isSome_iff (s : String) :
    (parse? s).isSome ↔ '\n' ∉ s.toList ∧ ∃ c : Cut, c.Fits s.toList := by
  constructor
  · intro h
    obtain ⟨hclear, c, hlongest, -⟩ := parse?_reads (Option.eq_some_of_isSome h)
    exact ⟨hclear, c, hlongest.1⟩
  · rintro ⟨hclear, c, hfits⟩
    have hs : s = String.ofList (opening ++ (c.path ++ c.rest)) := by
      rw [← hfits.2, String.ofList_toList]
    rw [hfits.2] at hclear hfits
    rw [hs, parse?_opening fun hmem => hclear (List.mem_append_right _ hmem), Option.isSome_map]
    cases hcut : lastCut? [] (c.path ++ c.rest) with
    | none => exact absurd hfits ((lastCut?_eq_none_iff _).mp hcut c)
    | some _ => rfl

/-- A text is read as one reference only. -/
theorem Reads.unique {s : String} {r r' : Reference} (h : Reads s r) (h' : Reads s r') :
    r = r' := by
  obtain ⟨-, c, hlongest, hdescribes⟩ := h
  obtain ⟨-, c', hlongest', hdescribes'⟩ := h'
  obtain rfl := hlongest.unique hlongest'
  exact hdescribes.unique hdescribes'

/-- The reader reads exactly what `Reads` describes. -/
theorem parse?_eq_some_iff (s : String) (r : Reference) : parse? s = some r ↔ Reads s r := by
  refine ⟨parse?_reads, fun hreads => ?_⟩
  obtain ⟨hclear, c, hlongest, -⟩ := id hreads
  have hsome := (parse?_isSome_iff s).mpr ⟨hclear, c, hlongest.1⟩
  obtain ⟨r', hr'⟩ := Option.isSome_iff_exists.mp hsome
  rw [hr', (parse?_reads hr').unique hreads]

end Reference

end StageVars

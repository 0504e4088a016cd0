import StageVars.Proofs.Reference.FilePattern
/-!
# StageVars.Proofs.Reference.Priority -- the first match of the pattern of references

The pattern of references prefers the longest directory that can be gone on from, and
behind it the longest name. That this is the cut with the longest path is not in the
pattern: a longer path behind a shorter directory would hold the longer directory, too.

* `match?_opening`: the first match, found by two searches one inside the other.
* `matched?_reads`: it describes the cut with the longest path.
* `parse?_reads_longest`: the reader and the pattern agree, and what they read.
-/

namespace StageVars

namespace Reference

open Pattern

variable {body : List Char}

/-! ## Cuts by their names -/

theorem fits_of_cutAt? {cs name rest : List Char} {c : Cut} (hsplit : cs = name ++ rest)
    (h : cutAt? name rest = some c) : c.Fits (opening ++ cs) ∧ name = c.name := by
  obtain ⟨hname, rfl, rfl⟩ := (cutAt?_eq_some_iff name rest c).mp h
  refine ⟨(c.fits_opening_iff cs).mpr ⟨hname, ?_⟩, rfl⟩
  rw [hsplit, Cut.path, List.append_assoc]

theorem cutAt?_of_fits {cs : List Char} {c : Cut} (h : c.Fits (opening ++ cs)) :
    cs = c.name ++ (suffix c.extension ++ c.rest)
      ∧ cutAt? c.name (suffix c.extension ++ c.rest) = some c := by
  obtain ⟨hname, hcs⟩ := (c.fits_opening_iff cs).mp h
  refine ⟨?_, (cutAt?_eq_some_iff _ _ c).mpr ⟨hname, rfl, rfl⟩⟩
  rw [hcs, Cut.path, List.append_assoc]

/-- The last cut by its name is the one with the longest path. -/
theorem longest_of_lastSplit? {cs : List Char} {c : Cut} (h : lastSplit? cutAt? cs = some c) :
    c.Longest (opening ++ cs) := by
  obtain ⟨name, rest, hsplit, hcut, hlater⟩ := (lastSplit?_eq_some_iff _ _ _).mp h
  obtain ⟨hfits, rfl⟩ := fits_of_cutAt? hsplit hcut
  refine ⟨hfits, fun other hother => Cut.path_length_le hfits hother ?_⟩
  refine Nat.le_of_not_lt fun hlonger => ?_
  obtain ⟨hsplit', hcut'⟩ := cutAt?_of_fits hother
  rw [hlater _ _ hsplit' hlonger] at hcut'
  cases hcut'

theorem isSome_lastSplit?_of_fits {cs : List Char} {c : Cut} (h : c.Fits (opening ++ cs)) :
    (lastSplit? cutAt? cs).isSome := by
  obtain ⟨hsplit, hcut⟩ := cutAt?_of_fits h
  refine Option.isSome_iff_ne_none.mpr fun hnone => ?_
  rw [(lastSplit?_eq_none_iff _ _).mp hnone _ _ hsplit] at hcut
  cases hcut

/-! ## The first match -/

/-- The groups of a cut behind a directory; `g` holds the directory. -/
def groups (body : List Char) (g : Groups) (c : Cut) : Groups :=
  memberGroups c.member
    ++ (1, body.take (body.length - c.rest.length)) :: (fileGroups c ++ g)

/-- What the pattern finds behind a directory. -/
def behind? (body : List Char) (g : Groups) (rest : List Char) : Option Groups :=
  (lastSplit? cutAt? rest).map (groups body g)

/-- The first match has the last directory behind which a cut is found, or else none. -/
theorem match?_opening (hclear : '\n' ∉ body) :
    pattern.match? (opening ++ body)
      = (lastSplit? (behindSlash? (behind? body)) body).or (behind? body [] body) := by
  have hstrip : stripLead? opening (opening ++ body) = some body :=
    (stripLead?_eq_some_iff _ _ _).mpr rfl
  rw [match?_eq_search, pattern, search_seq, search_literal, hstrip, Option.bind_some, search_seq,
    search_group, search_seq]
  -- behind the directories, both parts that follow are searched at once
  have hbehind (g : Groups) {rest : List Char} (hrest : '\n' ∉ rest) :
      (fileNamePattern.search rest fun g' rest' => memberPattern.search rest' fun g'' _ =>
        some (g'' ++ (1, body.take (body.length - rest'.length)) :: (g' ++ g) ++ []))
        = behind? body g rest := by
    rw [search_fileNamePattern hrest fun g' rest' g'' =>
      g'' ++ (1, body.take (body.length - rest'.length)) :: (g' ++ g) ++ []]
    simp only [List.append_nil]
    rfl
  rw [search_many_directoryPattern hclear]
  · refine congr (congrArg Option.or (lastSplit?_congr ?_)) (hbehind [] hclear)
    intro text after hsplit
    rw [behindSlash?, behindSlash?]
    cases hslash : stripLead? ['/'] after with
    | none => rfl
    | some rest =>
      rw [stripLead?_eq_some_iff] at hslash
      have hrest : '\n' ∉ rest := by
        rw [hsplit, hslash] at hclear
        exact fun hmem => hclear (List.mem_append_right _ (List.mem_append_right _ hmem))
      rw [Option.bind_some, Option.bind_some, hbehind _ hrest]
  · intro g g' rest hrest
    rw [hbehind g hrest, hbehind g' hrest, behind?, behind?, Option.isSome_map, Option.isSome_map]

/-! ## What the first match describes -/

/-- The group that a directory leaves. -/
def directoryGroups : Option (List Char) → Groups
  | none => []
  | some dir => [(2, dir)]

/-- The groups of a cut behind a directory make its reference. -/
theorem ofGroups?_groups {c : Cut} (directory? : Option (List Char))
    (hbody : body = directory?.getD [] ++ (c.path ++ c.rest)) :
    ofGroups? (groups body (directoryGroups directory?) c)
      = some ((c.behind (directory?.getD [])).reference directory? c.name) := by
  have htaken : body.take (body.length - c.rest.length) = directory?.getD [] ++ c.path := by
    rw [hbody, ← List.append_assoc, take_of_append]
  rw [groups, htaken]
  cases directory? <;> cases hmember : c.member <;>
    simp [ofGroups?, memberGroups, fileGroups, directoryGroups, Cut.reference, Cut.behind,
      Cut.path, List.lookup_cons, Extension.ofName?_name, hmember]

/-- Behind every directory that a cut could have, the pattern finds a cut. -/
theorem isSome_behindSlash? {c : Cut} (h : c.Fits (opening ++ body)) {d file : List Char}
    (hname : c.name = d ++ '/' :: file) (hd : d ≠ []) (hfile : file ≠ []) :
    ∃ after, body = d ++ after ∧ (behindSlash? (behind? body) d after).isSome := by
  obtain ⟨-, hbody⟩ := (c.fits_opening_iff body).mp h
  have hfits : Cut.Fits ⟨file, c.extension, c.member⟩
      (opening ++ (file ++ suffix c.extension ++ c.rest)) :=
    (Cut.fits_opening_iff _ _).mpr ⟨hfile, rfl⟩
  refine ⟨'/' :: (file ++ suffix c.extension ++ c.rest), ?_, ?_⟩
  · rw [hbody, Cut.path, hname]
    simp
  · have hstrip : stripLead? ['/'] ('/' :: (file ++ suffix c.extension ++ c.rest))
        = some (file ++ suffix c.extension ++ c.rest) :=
      (stripLead?_eq_some_iff _ _ _).mpr rfl
    rw [behindSlash?, if_neg hd, hstrip, Option.bind_some, behind?, Option.isSome_map]
    exact isSome_lastSplit?_of_fits hfits

/-- The first match is that of the cut with the longest path, and it has its longest
directory. -/
theorem ofGroups?_match? (hclear : '\n' ∉ body) {g : Groups}
    (h : pattern.match? (opening ++ body) = some g) :
    ∃ c : Cut, ∃ directory? file, c.Longest (opening ++ body) ∧ c.Directory directory?
      ∧ c.name = directory?.getD [] ++ file
      ∧ ofGroups? g = some (c.reference directory? file) := by
  rw [match?_opening hclear, Option.or_eq_some_iff] at h
  rcases h with hdirectory | ⟨hnone, hwhole⟩
  · obtain ⟨d, after, hsplit, hfound, hlater⟩ := (lastSplit?_eq_some_iff _ _ _).mp hdirectory
    obtain ⟨hd, rest, rfl, hbehind⟩ := (behindSlash?_eq_some_iff _ _ _ _).mp hfound
    obtain ⟨c, hcut, rfl⟩ := Option.map_eq_some_iff.mp hbehind
    have hbody : body = (d ++ ['/']) ++ rest := by
      rw [hsplit, List.append_assoc, List.singleton_append]
    have hlongest := longest_of_lastSplit? hcut
    obtain ⟨hname, hrest⟩ := (c.fits_opening_iff rest).mp hlongest.1
    have hbehind : (c.behind (d ++ ['/'])).Longest (opening ++ body) :=
      hbody ▸ hlongest.behind (d ++ ['/'])
    have hpart : (c.behind (d ++ ['/'])).DirectoryPart (d ++ ['/']) :=
      (Cut.directoryPart_iff _ _).mpr ⟨d, c.name, rfl, List.append_assoc _ _ _, hd, hname⟩
    refine ⟨c.behind (d ++ ['/']), some (d ++ ['/']), c.name, hbehind, ⟨hpart, ?_⟩, rfl, ?_⟩
    · -- behind a longer directory a cut would have been found, too
      intro other hother
      obtain ⟨d', file, rfl, hname', hd', hfile⟩ := (Cut.directoryPart_iff _ _).mp hother
      obtain ⟨after', hsplit', hsome⟩ := isSome_behindSlash? hbehind.1 hname' hd' hfile
      have hle : d'.length ≤ d.length := by
        refine Nat.le_of_not_lt fun hlonger => ?_
        rw [hlater d' after' hsplit' hlonger] at hsome
        cases hsome
      simpa using hle
    · exact ofGroups?_groups (some (d ++ ['/'])) (hbody.trans (by rw [hrest]; rfl))
  · obtain ⟨c, hcut, rfl⟩ := Option.map_eq_some_iff.mp hwhole
    have hlongest := longest_of_lastSplit? hcut
    refine ⟨c, none, c.name, hlongest, ?_, rfl, ?_⟩
    · -- no directory led to a cut, not even one of this cut
      intro dir hpart
      obtain ⟨d, file, rfl, hname, hd, hfile⟩ := (Cut.directoryPart_iff _ _).mp hpart
      obtain ⟨after, hsplit, hsome⟩ := isSome_behindSlash? hlongest.1 hname hd hfile
      rw [(lastSplit?_eq_none_iff _ _).mp hnone d after hsplit] at hsome
      cases hsome
    · exact ofGroups?_groups none ((c.fits_opening_iff body).mp hlongest.1).2

/-! ## The reader and the pattern -/

/-- What the pattern matches is a text with the opening and without a line feed. -/
theorem exists_opening_of_match? {cs : List Char} {g : Groups} (h : pattern.match? cs = some g) :
    ∃ body, '\n' ∉ body ∧ cs = opening ++ body := by
  obtain ⟨⟨_, rest⟩, hfirst, rfl⟩ := Option.map_eq_some_iff.mp h
  have hway := List.mem_of_mem_head? hfirst
  obtain rfl := rest_eq_nil_of_mem_ways rfl hway
  have hlines : pattern.avoids '\n' = true := by decide
  obtain ⟨taken, htaken, hclear⟩ := clear_of_mem_ways hlines hway
  rw [List.append_nil] at htaken
  rw [match?_eq_search, pattern, search_seq, search_literal] at h
  obtain ⟨body, hstrip, -⟩ := Option.bind_eq_some_iff.mp h
  rw [stripLead?_eq_some_iff] at hstrip
  refine ⟨body, fun hmem => hclear ?_, hstrip⟩
  rw [← htaken, hstrip]
  exact List.mem_append_right _ hmem

/-- What the pattern reads describes the cut with the longest path. -/
theorem matched?_reads {s : String} {r : Reference} (h : matched? s = some r) : Reads s r := by
  obtain ⟨g, hmatch, hr⟩ := Option.bind_eq_some_iff.mp h
  obtain ⟨body, hclear, hs⟩ := exists_opening_of_match? hmatch
  rw [hs] at hmatch
  obtain ⟨c, directory?, file, hlongest, hdirectory, hname, hreference⟩ :=
    ofGroups?_match? hclear hmatch
  rw [hr, Option.some.injEq] at hreference
  subst hreference
  refine ⟨?_, c, ?_, Cut.describes_reference hdirectory hname⟩
  · rw [hs]
    exact clear_opening_append hclear
  · rwa [hs]

/-- The pattern matches what some cut fits. -/
theorem isSome_matched?_of_fits {s : String} {c : Cut} (hclear : '\n' ∉ s.toList)
    (h : c.Fits s.toList) : (matched? s).isSome := by
  obtain ⟨hname, hs⟩ := id h
  rw [hs] at h hclear
  have hbody : '\n' ∉ c.path ++ c.rest := fun hmem => hclear (List.mem_append_right _ hmem)
  obtain ⟨g, hmatch⟩ : ∃ g, pattern.match? (opening ++ (c.path ++ c.rest)) = some g := by
    rw [← Option.isSome_iff_exists, match?_opening hbody, Option.isSome_or, behind?,
      Option.isSome_map, isSome_lastSplit?_of_fits h, Bool.or_true]
  obtain ⟨_, _, _, -, -, -, hreference⟩ := ofGroups?_match? hbody hmatch
  rw [matched?, hs, hmatch, Option.bind_some, hreference]
  rfl

/-- The pattern reads exactly what `Reads` describes. -/
theorem matched?_eq_some_iff (s : String) (r : Reference) : matched? s = some r ↔ Reads s r := by
  refine ⟨matched?_reads, fun hreads => ?_⟩
  obtain ⟨hclear, c, hlongest, -⟩ := id hreads
  obtain ⟨r', hr'⟩ := Option.isSome_iff_exists.mp (isSome_matched?_of_fits hclear hlongest.1)
  rw [hr', (matched?_reads hr').unique hreads]

/-- **The reader takes the first match.** A text is read exactly when it has no line feed
and some cut fits it. It is read as the cut with the longest path, with the longest
directory of that path; and this is what the pattern of references matches first. -/
theorem parse?_reads_longest (s : String) :
    ((parse? s).isSome ↔ '\n' ∉ s.toList ∧ ∃ c : Cut, c.Fits s.toList)
      ∧ (∀ r, parse? s = some r ↔ Reads s r)
      ∧ parse? s = matched? s := by
  refine ⟨parse?_isSome_iff s, parse?_eq_some_iff s, Option.ext fun r => ?_⟩
  rw [parse?_eq_some_iff, matched?_eq_some_iff]

end Reference

end StageVars

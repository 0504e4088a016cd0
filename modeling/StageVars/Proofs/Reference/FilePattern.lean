import StageVars.Proofs.Reference.Pattern
import StageVars.Proofs.Reference.Reader
/-!
# StageVars.Proofs.Reference.FilePattern -- the pattern of references

References are also given by the pattern
`^\$\{file\(((.+/)*((.+)\.(yml|yaml|json|js)))\)(?::(.*))?\}$`, whose first match is
taken: its groups are the path, the directory, the file name, the file name without its
extension, the extension and the member.

* `search_memberPattern`, `search_fileNamePattern`: what may stand behind a directory.
* `search_directoryPattern`: where one directory may end.
-/

namespace StageVars

namespace Reference

open Pattern

/-! ## The pattern -/

/-- Any text within a line. -/
def anyText : Pattern := .many dot

/-- Any text within a line but the empty one. -/
def someText : Pattern := .seq dot anyText

def directoryPattern : Pattern := .group 2 (.seq someText (literal ['/']))

/-- One of some extensions, the first that can be gone on from. -/
def extensionPattern (es : List Extension) : Pattern :=
  es.foldr (fun e p => .either (literal e.name.toList) p) (.one fun _ => false)

def fileNamePattern : Pattern :=
  .group 3 (.seq (.group 4 someText)
    (.seq (literal ['.']) (.group 5 (extensionPattern Extension.all))))

def memberPattern : Pattern :=
  .seq (literal [')']) (.seq (.either (.seq (literal [':']) (.group 6 anyText)) .empty)
    (.seq (literal ['\x7d']) .atEnd))

/-- The pattern of references. It starts at the beginning of the text. -/
def pattern : Pattern :=
  .seq (literal opening)
    (.seq (.group 1 (.seq (.many directoryPattern) fileNamePattern)) memberPattern)

/-- The reference that the groups of the pattern hold. -/
def ofGroups? (g : Groups) : Option Reference := do
  let text n := (g.lookup n).map String.ofList
  return {
    path := ← text 1
    directory := text 2
    baseName := ← text 3
    stem := ← text 4
    extension := ← Extension.ofName? (← text 5)
    member := text 6 }

/-- The reference that the first match of the pattern holds. -/
def matched? (s : String) : Option Reference := (pattern.match? s.toList).bind ofGroups?

/-! ## Searching for its parts -/

variable {β : Type} {cs : List Char}

theorem stripLead?_append (lead lead' cs : List Char) :
    stripLead? (lead ++ lead') cs = (stripLead? lead cs).bind (stripLead? lead') := by
  induction lead generalizing cs with
  | nil => simp [stripLead?]
  | cons l lead ih =>
    cases cs with
    | nil => rfl
    | cons c cs =>
      by_cases h : l = c
      · simp [stripLead?, h, ih]
      · simp [stripLead?, h]

@[simp] theorem search_literal (lead cs : List Char) (next : Groups → List Char → Option β) :
    (literal lead).search cs next = (stripLead? lead cs).bind (next []) := by
  induction lead generalizing cs next with
  | nil => simp [literal, stripLead?]
  | cons l lead ih =>
    rw [literal, search_seq]
    cases cs with
    | nil => rfl
    | cons c cs =>
      rw [search_one]
      by_cases h : l = c
      · simp [stripLead?, h, ih]
      · simp [stripLead?, h, Ne.symm h]

theorem search_anyText (hclear : '\n' ∉ cs) (next : Groups → List Char → Option β) :
    anyText.search cs next = lastSplit? (fun _ rest => next [] rest) cs := by
  refine search_many_one _ ?_ next
  intro c hc
  rw [bne_iff_ne]
  rintro rfl
  exact hclear hc

theorem search_someText (hclear : '\n' ∉ cs) (next : Groups → List Char → Option β) :
    someText.search cs next
      = lastSplit? (fun text rest => if text = [] then none else next [] rest) cs := by
  rw [someText, search_seq]
  cases cs with
  | nil => rfl
  | cons c cs =>
    have hc : (c != '\n') = true := by
      rw [bne_iff_ne]
      rintro rfl
      exact hclear List.mem_cons_self
    have hcs : '\n' ∉ cs := fun hmem => hclear (List.mem_cons_of_mem c hmem)
    rw [dot, search_one, if_pos hc, search_anyText hcs]
    simp [lastSplit?]

/-- The text that a group has taken. -/
theorem take_of_append (taken rest : List Char) :
    (taken ++ rest).take ((taken ++ rest).length - rest.length) = taken := by
  simp

theorem search_group_anyText (n : Nat) (hclear : '\n' ∉ cs)
    (next : Groups → List Char → Option β) :
    (group n anyText).search cs next = lastSplit? (fun text rest => next [(n, text)] rest) cs := by
  rw [search_group, search_anyText hclear]
  refine lastSplit?_congr ?_
  rintro text rest rfl
  rw [take_of_append]

theorem search_group_someText (n : Nat) (hclear : '\n' ∉ cs)
    (next : Groups → List Char → Option β) :
    (group n someText).search cs next
      = lastSplit? (fun text rest => if text = [] then none else next [(n, text)] rest) cs := by
  rw [search_group, search_someText hclear]
  refine lastSplit?_congr ?_
  rintro text rest rfl
  rw [take_of_append]

theorem search_extensionPattern (es : List Extension) (next : Groups → List Char → Option β) :
    (extensionPattern es).search cs next
      = es.findSome? fun e => (stripLead? e.name.toList cs).bind (next []) := by
  induction es with
  | nil =>
    cases cs with
    | nil => rfl
    | cons c cs => rw [extensionPattern, List.foldr_nil, search_one]; rfl
  | cons e es ih =>
    rw [extensionPattern, List.foldr_cons, search_either, search_literal, List.findSome?_cons]
    rw [extensionPattern] at ih
    rw [ih]
    cases (stripLead? e.name.toList cs).bind (next []) <;> rfl

/-! ## The member -/

/-- The group that a member leaves. -/
def memberGroups : Option (List Char) → Groups
  | none => []
  | some name => [(6, name)]

/-- Go on at the end behind a closing brace. -/
def atBrace (next : Option β) (cs : List Char) : Option β := if cs = ['\x7d'] then next else none

theorem search_brace (next : Groups → List Char → Option β) :
    (seq (literal ['\x7d']) atEnd).search cs next = atBrace (next [] []) cs := by
  rw [search_seq, search_literal, atBrace]
  cases hstrip : stripLead? ['\x7d'] cs with
  | none =>
    have hcs : cs ≠ ['\x7d'] := by
      rintro rfl
      cases hstrip
    rw [if_neg hcs]
    rfl
  | some rest =>
    rw [stripLead?_eq_some_iff, List.singleton_append] at hstrip
    by_cases hrest : rest = [] <;> simp [hstrip, hrest]

/-- Only one name is followed by the closing brace at the end. -/
theorem lastSplit?_atBrace (next : Option (List Char) → Option β) (rest : List Char) :
    lastSplit? (fun name after => atBrace (next (some name)) after) rest
      = (member? (':' :: rest)).bind next := by
  cases hmember : member? (':' :: rest) with
  | none =>
    rw [Option.bind_none, lastSplit?_eq_none_iff]
    intro name after hsplit
    rw [atBrace, if_neg]
    rintro rfl
    have hnamed := (member?_eq_some_iff (':' :: (name ++ ['\x7d'])) (some name)).mpr rfl
    rw [hsplit, hnamed] at hmember
    cases hmember
  | some m =>
    rw [member?_eq_some_iff] at hmember
    cases m with
    | none => cases hmember
    | some name =>
      obtain rfl : rest = name ++ ['\x7d'] := (List.cons.inj hmember).2
      rw [lastSplit?_append]
      · rfl
      · intro name' after hsplit hsome
        rw [atBrace] at hsome
        split at hsome
        next hafter =>
          subst hafter
          exact (List.append_cancel_right hsplit).symm
        next => cases hsome

/-- Behind the path the pattern finds the member that the reader finds. -/
theorem search_memberPattern (hclear : '\n' ∉ cs) (next : Groups → List Char → Option β) :
    memberPattern.search cs next
      = ((stripLead? [')'] cs).bind member?).bind fun m => next (memberGroups m) [] := by
  rw [memberPattern, search_seq, search_literal]
  cases hparen : stripLead? [')'] cs with
  | none => rfl
  | some rest =>
    rw [stripLead?_eq_some_iff] at hparen
    have hrest : '\n' ∉ rest := by
      intro hmem
      exact hclear (hparen ▸ List.mem_append_right _ hmem)
    rw [Option.bind_some, Option.bind_some, search_seq, search_either, search_empty, search_seq,
      search_literal, search_brace]
    cases hcolon : stripLead? [':'] rest with
    | none =>
      -- without a colon there is the brace alone
      rw [Option.bind_none, Option.none_or, atBrace]
      cases hmember : member? rest with
      | none =>
        rw [if_neg]
        · rfl
        · rintro rfl
          cases hmember
      | some m =>
        rw [member?_eq_some_iff] at hmember
        subst hmember
        cases m with
        | none => rfl
        | some name => cases hcolon
    | some behind =>
      rw [stripLead?_eq_some_iff] at hcolon
      have hbehind : '\n' ∉ behind := by
        intro hmem
        exact hrest (hcolon ▸ List.mem_append_right _ hmem)
      rw [Option.bind_some, search_group_anyText 6 hbehind]
      simp only [search_brace]
      have hnamed := lastSplit?_atBrace (fun m => next (memberGroups m) []) behind
      have hbare : rest ≠ ['\x7d'] := by
        rw [hcolon]
        simp
      rw [atBrace, if_neg hbare, Option.or_none]
      exact hnamed.trans (by rw [hcolon]; rfl)

/-! ## The file name -/

/-- The cut of a text in which `name` stands before the extension. -/
def cutAt? (name rest : List Char) : Option Cut :=
  if name = [] then none
  else Extension.all.findSome? fun e =>
    ((stripLead? (suffix e ++ [')']) rest).bind member?).map fun m => ⟨name, e, m⟩

/-- An extension with a parenthesis behind it is not the beginning of another one. -/
theorem stripLead?_suffix (e e' : Extension) (rest : List Char) :
    stripLead? (suffix e' ++ [')']) (suffix e ++ ')' :: rest)
      = if e' = e then some rest else none := by
  cases e <;> cases e' <;> rfl

theorem cutAt?_eq_some_iff (name rest : List Char) (c : Cut) :
    cutAt? name rest = some c
      ↔ c.name ≠ [] ∧ name = c.name ∧ rest = suffix c.extension ++ c.rest := by
  obtain ⟨name', e, m⟩ := c
  constructor
  · intro h
    rw [cutAt?] at h
    split at h
    next => cases h
    next hname =>
      obtain ⟨e', -, he'⟩ := List.exists_of_findSome?_eq_some h
      obtain ⟨m', hm', heq⟩ := Option.map_eq_some_iff.mp he'
      cases heq
      obtain ⟨behind, hstrip, hmember⟩ := Option.bind_eq_some_iff.mp hm'
      rw [stripLead?_eq_some_iff] at hstrip
      rw [member?_eq_some_iff] at hmember
      refine ⟨hname, rfl, ?_⟩
      rw [hstrip, hmember, List.append_assoc]
      rfl
  · rintro ⟨hname, rfl, rfl⟩
    have hmember := (member?_eq_some_iff _ m).mpr rfl
    rw [cutAt?, if_neg hname, Cut.rest]
    simp only [stripLead?_suffix]
    cases e <;> simp [Extension.all, hmember]

/-- The groups that the file name of a cut leaves. -/
def fileGroups (c : Cut) : Groups :=
  [(3, c.path), (5, c.extension.name.toList), (4, c.name)]

/-- Behind a name, the pattern finds the cut that has it. -/
theorem search_behind_name {name rest : List Char} (hclear : '\n' ∉ rest) (hname : name ≠ [])
    (out : Groups → List Char → Groups → β) :
    ((seq (literal ['.']) (group 5 (extensionPattern Extension.all))).search rest fun g rest' =>
        memberPattern.search rest' fun g' _ =>
          some (out ((3, (name ++ rest).take ((name ++ rest).length - rest'.length))
            :: (g ++ [(4, name)])) rest' g'))
      = (cutAt? name rest).map fun c => out (fileGroups c) c.rest (memberGroups c.member) := by
  rw [search_seq, search_literal, cutAt?, if_neg hname, List.map_findSome?]
  cases hdot : stripLead? ['.'] rest with
  | none =>
    have hnone (e : Extension) : stripLead? (suffix e ++ [')']) rest = none := by
      rw [suffix, ← List.singleton_append, List.append_assoc, stripLead?_append, hdot]
      rfl
    simp only [hnone, Option.bind_none]
    exact (List.findSome?_eq_none_iff.mpr fun _ _ => rfl).symm
  | some behind =>
    have hsuffix (e : Extension) : stripLead? (suffix e ++ [')']) rest
        = (stripLead? e.name.toList behind).bind (stripLead? [')']) := by
      rw [suffix, ← List.singleton_append, List.append_assoc, stripLead?_append, hdot,
        Option.bind_some, stripLead?_append]
    rw [stripLead?_eq_some_iff] at hdot
    rw [Option.bind_some, search_group, search_extensionPattern]
    congr 1
    funext e
    rw [Function.comp, hsuffix]
    cases hext : stripLead? e.name.toList behind with
    | none => rfl
    | some rest' =>
      rw [stripLead?_eq_some_iff] at hext
      have hrest' : '\n' ∉ rest' := by
        intro hmem
        rw [hdot, hext] at hclear
        exact hclear (List.mem_append_right _ (List.mem_append_right _ hmem))
      rw [Option.bind_some, Option.bind_some, search_memberPattern hrest', Option.map_map]
      cases hmember : (stripLead? [')'] rest').bind member? with
      | none => rfl
      | some m =>
        obtain ⟨inside, hparen, hinside⟩ := Option.bind_eq_some_iff.mp hmember
        rw [stripLead?_eq_some_iff] at hparen
        rw [member?_eq_some_iff] at hinside
        have hrest : rest' = Cut.rest ⟨name, e, m⟩ := by
          rw [hparen, hinside]
          rfl
        have hpath : name ++ rest = Cut.path ⟨name, e, m⟩ ++ rest' := by
          rw [hdot, hext]
          simp [Cut.path, suffix]
        have hfive : behind.take (behind.length - rest'.length) = e.name.toList := by
          rw [hext, take_of_append]
        rw [hpath, take_of_append, hfive, hrest]
        simp [fileGroups]

/-- Where no directory stands, the pattern finds the cut with the longest name. -/
theorem search_fileNamePattern (hclear : '\n' ∉ cs) (out : Groups → List Char → Groups → β) :
    fileNamePattern.search cs (fun g rest =>
        memberPattern.search rest fun g' _ => some (out g rest g'))
      = (lastSplit? cutAt? cs).map fun c =>
          out (fileGroups c) c.rest (memberGroups c.member) := by
  rw [fileNamePattern, search_group, search_seq, search_group_someText 4 hclear, map_lastSplit?]
  refine lastSplit?_congr ?_
  rintro name rest rfl
  by_cases hname : name = []
  · simp [hname, cutAt?]
  · rw [if_neg hname]
    exact search_behind_name (fun hmem => hclear (List.mem_append_right _ hmem)) hname out

/-! ## The directory -/

/-- What is found behind a directory that ends between `text` and `after`. -/
def behindSlash? (next : Groups → List Char → Option β) (text after : List Char) : Option β :=
  if text = [] then none
  else (stripLead? ['/'] after).bind (next [(2, text ++ ['/'])])

theorem behindSlash?_eq_some_iff (next : Groups → List Char → Option β) (text after : List Char)
    (b : β) :
    behindSlash? next text after = some b
      ↔ text ≠ [] ∧ ∃ rest, after = '/' :: rest ∧ next [(2, text ++ ['/'])] rest = some b := by
  rw [behindSlash?]
  by_cases h : text = []
  · simp [h]
  · simp [h, Option.bind_eq_some_iff, stripLead?_eq_some_iff]

/-- One directory ends at the last slash that can be gone on from. -/
theorem search_directoryPattern (hclear : '\n' ∉ cs) (next : Groups → List Char → Option β) :
    directoryPattern.search cs next = lastSplit? (behindSlash? next) cs := by
  rw [directoryPattern, search_group, search_seq, search_someText hclear]
  refine lastSplit?_congr ?_
  rintro text after rfl
  rw [behindSlash?, search_literal]
  cases hstrip : stripLead? ['/'] after with
  | none => rfl
  | some rest =>
    rw [stripLead?_eq_some_iff] at hstrip
    rw [hstrip, ← List.append_assoc, Option.bind_some, Option.bind_some, take_of_append]
    rfl

/-- **Directories are not repeated.** If going on depends on the rest alone, then one
longer directory is found before two that it consists of. -/
theorem search_many_directoryPattern (hclear : '\n' ∉ cs) (next : Groups → List Char → Option β)
    (hnext : ∀ g g' rest, '\n' ∉ rest → (next g rest).isSome = (next g' rest).isSome) :
    (many directoryPattern).search cs next
      = (lastSplit? (behindSlash? next) cs).or (next [] cs) := by
  induction hlength : cs.length using Nat.strongRecOn generalizing cs next with
  | ind n ih =>
    rw [search_many, search_directoryPattern hclear]
    congr 1
    -- only the last directory counts, and behind it no second one is found
    refine lastSplit?_congr_of_last ?_
    rintro text after rfl hlater
    rw [behindSlash?, behindSlash?]
    by_cases htext : text = []
    · rw [if_pos htext, if_pos htext]
    · rw [if_neg htext, if_neg htext]
      cases hstrip : stripLead? ['/'] after with
      | none => rfl
      | some rest =>
        rw [stripLead?_eq_some_iff] at hstrip
        subst hstrip
        have hshorter : rest.length < (text ++ (['/'] ++ rest)).length := by
          simp only [List.length_append, List.length_cons]
          omega
        have hrest : '\n' ∉ rest := by
          intro hmem
          exact hclear (List.mem_append_right _ (List.mem_append_right _ hmem))
        have hmore := ih _ (hlength ▸ hshorter) hrest
          (fun g' rest' => next (g' ++ [(2, text ++ ['/'])]) rest') (fun _ _ => hnext _ _) rfl
        rw [Option.bind_some, Option.bind_some, if_pos hshorter, hmore]
        -- it would end at a later slash, and one directory up to there was tried before
        have hsecond : lastSplit?
            (behindSlash? fun g' rest' => next (g' ++ [(2, text ++ ['/'])]) rest') rest = none := by
          rw [lastSplit?_eq_none_iff]
          rintro text₂ after₂ rfl
          refine Option.eq_none_iff_forall_ne_some.mpr fun b hfound => ?_
          obtain ⟨htext₂, rest₂, rfl, hb⟩ := (behindSlash?_eq_some_iff _ _ _ _).mp hfound
          have hnone := hlater (text ++ '/' :: text₂) ('/' :: rest₂) (by simp) (by simp)
          have hrest₂ : '\n' ∉ rest₂ := fun hmem =>
            hrest (List.mem_append_right _ (List.mem_cons_of_mem _ hmem))
          obtain ⟨b', hb'⟩ := Option.isSome_iff_exists.mp
            ((hnext _ [(2, (text ++ '/' :: text₂) ++ ['/'])] rest₂ hrest₂).symm.trans
              (Option.isSome_of_eq_some hb))
          rw [(behindSlash?_eq_some_iff _ _ _ _).mpr ⟨by simp, rest₂, rfl, hb'⟩] at hnone
          cases hnone
        rw [hsecond, Option.none_or, List.nil_append]

end Reference

end StageVars

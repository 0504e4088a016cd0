import StageVars.Proofs.Reference.LastSplit
/-!
# StageVars.Proofs.Reference.Pattern -- patterns and the order of their matches

A backtracking pattern matches a text in an order of preference: the left alternative
before the right one, one more round before stopping. `Pattern.ways` lists the matches of
a beginning of the text in that order, so that the match of a pattern is the first of
them.

* `search_seq`, `search_either`, `search_many`, `search_group`: a search, constructor by
  constructor.
* `search_many_one`: repeating one character looks for the last place to go on from.
* `clear_of_mem_ways`: a pattern that cannot take a character leaves it where it is.
-/

namespace StageVars

/-- What the numbered groups of a pattern hold, the latest match first. -/
abbrev Groups := List (Nat × List Char)

/-- A pattern for a beginning of a text. -/
inductive Pattern where
  | one (accepts : Char → Bool)
  | empty
  | seq (p q : Pattern)
  | either (p q : Pattern)
  | many (p : Pattern)
  | group (n : Nat) (p : Pattern)
  | atEnd

namespace Pattern

/-- One round of `step` and then more of them, or none. A round that takes nothing is not
gone on from, so that there are at most as many rounds as characters. -/
def rounds (step : List Char → List (Groups × List Char)) :
    Nat → List Char → List (Groups × List Char)
  | 0, cs => [([], cs)]
  | limit + 1, cs =>
    ((step cs).flatMap fun (g, rest) =>
      if rest.length < cs.length then
        (rounds step limit rest).map fun (g', rest') => (g' ++ g, rest')
      else []) ++ [([], cs)]

/-- The ways to match a beginning of a text, the best first: the groups and the rest. -/
def ways : Pattern → List Char → List (Groups × List Char)
  | one _, [] => []
  | one accepts, c :: rest => if accepts c then [([], rest)] else []
  | empty, cs => [([], cs)]
  | seq p q, cs => (ways p cs).flatMap fun (g, rest) =>
      (ways q rest).map fun (g', rest') => (g' ++ g, rest')
  | either p q, cs => ways p cs ++ ways q cs
  | many p, cs => rounds (ways p) cs.length cs
  | group n p, cs => (ways p cs).map fun (g, rest) =>
      ((n, cs.take (cs.length - rest.length)) :: g, rest)
  | atEnd, cs => if cs.isEmpty then [([], cs)] else []

theorem ways_one_cons (accepts : Char → Bool) (c : Char) (rest : List Char) :
    (one accepts).ways (c :: rest) = if accepts c then [([], rest)] else [] := rfl

theorem ways_seq (p q : Pattern) (cs : List Char) :
    (seq p q).ways cs = (p.ways cs).flatMap fun (g, rest) =>
      (q.ways rest).map fun (g', rest') => (g' ++ g, rest') := rfl

theorem ways_either (p q : Pattern) (cs : List Char) :
    (either p q).ways cs = p.ways cs ++ q.ways cs := rfl

theorem ways_group (n : Nat) (p : Pattern) (cs : List Char) :
    (group n p).ways cs = (p.ways cs).map fun (g, rest) =>
      ((n, cs.take (cs.length - rest.length)) :: g, rest) := rfl

theorem ways_atEnd (cs : List Char) :
    atEnd.ways cs = if cs.isEmpty then [([], cs)] else [] := rfl

theorem rounds_succ (step : List Char → List (Groups × List Char)) (limit : Nat)
    (cs : List Char) :
    rounds step (limit + 1) cs = ((step cs).flatMap fun (g, rest) =>
      if rest.length < cs.length then
        (rounds step limit rest).map fun (g', rest') => (g' ++ g, rest')
      else []) ++ [([], cs)] := rfl

/-- The groups of the best way to match a text. -/
def match? (p : Pattern) (cs : List Char) : Option Groups := (p.ways cs).head?.map Prod.fst

/-- These characters, one after the other. -/
def literal : List Char → Pattern
  | [] => empty
  | c :: cs => seq (one (· == c)) (literal cs)

/-- Any character but a line feed. -/
def dot : Pattern := one (· != '\n')

/-- Each character of a pattern is another one than `a`. -/
def avoids (a : Char) : Pattern → Bool
  | one accepts => !accepts a
  | empty | atEnd => true
  | seq p q | either p q => p.avoids a && q.avoids a
  | many p | group _ p => p.avoids a

/-! ## Going on with the first way that leads somewhere -/

variable {β : Type}

/-- Try the ways of a pattern in their order until one can be gone on from. -/
def search (p : Pattern) (cs : List Char) (next : Groups → List Char → Option β) : Option β :=
  (p.ways cs).findSome? fun (g, rest) => next g rest

theorem match?_eq_search (p : Pattern) (cs : List Char) :
    p.match? cs = p.search cs fun g _ => some g := by
  rw [match?, search]
  cases p.ways cs <;> rfl

theorem search_one (accepts : Char → Bool) (c : Char) (cs : List Char)
    (next : Groups → List Char → Option β) :
    (one accepts).search (c :: cs) next = if accepts c then next [] cs else none := by
  rw [search, ways_one_cons]
  split <;> simp

@[simp] theorem search_one_nil (accepts : Char → Bool) (next : Groups → List Char → Option β) :
    (one accepts).search [] next = none := rfl

@[simp] theorem search_empty (cs : List Char) (next : Groups → List Char → Option β) :
    empty.search cs next = next [] cs :=
  List.findSome?_singleton

@[simp] theorem search_atEnd (cs : List Char) (next : Groups → List Char → Option β) :
    atEnd.search cs next = if cs = [] then next [] cs else none := by
  cases cs <;> simp [search, ways_atEnd]

theorem findSome?_flatMap {α γ : Type} (as : List α) (f : α → List γ) (g : γ → Option β) :
    (as.flatMap f).findSome? g = as.findSome? fun a => (f a).findSome? g := by
  induction as with
  | nil => rfl
  | cons a as ih =>
    rw [List.flatMap_cons, List.findSome?_append, ih, List.findSome?_cons]
    cases (f a).findSome? g <;> rfl

theorem search_seq (p q : Pattern) (cs : List Char) (next : Groups → List Char → Option β) :
    (seq p q).search cs next
      = p.search cs fun g rest => q.search rest fun g' rest' => next (g' ++ g) rest' := by
  simp only [search, ways_seq, findSome?_flatMap, List.findSome?_map]
  rfl

theorem search_either (p q : Pattern) (cs : List Char) (next : Groups → List Char → Option β) :
    (either p q).search cs next = (p.search cs next).or (q.search cs next) := by
  rw [search, ways_either, List.findSome?_append]
  rfl

theorem search_group (n : Nat) (p : Pattern) (cs : List Char)
    (next : Groups → List Char → Option β) :
    (group n p).search cs next
      = p.search cs fun g rest => next ((n, cs.take (cs.length - rest.length)) :: g) rest := by
  rw [search, ways_group, List.findSome?_map]
  rfl

theorem rounds_nil (step : List Char → List (Groups × List Char)) (limit : Nat) :
    rounds step limit [] = [([], [])] := by
  cases limit with
  | zero => rfl
  | succ limit => simp [rounds_succ]

/-- As soon as there may be as many rounds as characters, the limit does not matter. -/
theorem rounds_eq_rounds (step : List Char → List (Groups × List Char)) {limit limit' : Nat}
    {cs : List Char} (h : cs.length ≤ limit) (h' : cs.length ≤ limit') :
    rounds step limit cs = rounds step limit' cs := by
  induction limit generalizing limit' cs with
  | zero =>
    obtain rfl := List.eq_nil_of_length_eq_zero (Nat.le_zero.mp h)
    rw [rounds_nil, rounds_nil]
  | succ limit ih =>
    cases limit' with
    | zero =>
      obtain rfl := List.eq_nil_of_length_eq_zero (Nat.le_zero.mp h')
      rw [rounds_nil, rounds_nil]
    | succ limit' =>
      rw [rounds_succ, rounds_succ]
      congr 2
      funext ⟨g, rest⟩
      by_cases hshorter : rest.length < cs.length
      · have hle : rest.length ≤ limit := Nat.le_of_lt_succ (Nat.lt_of_lt_of_le hshorter h)
        have hle' : rest.length ≤ limit' := Nat.le_of_lt_succ (Nat.lt_of_lt_of_le hshorter h')
        simp only [if_pos hshorter]
        rw [ih hle hle']
      · simp only [if_neg hshorter]

/-- Go on from one round of a repetition, or else without any. -/
theorem search_many (p : Pattern) (cs : List Char) (next : Groups → List Char → Option β) :
    (many p).search cs next
      = (p.search cs fun g rest =>
          if rest.length < cs.length then
            (many p).search rest fun g' rest' => next (g' ++ g) rest'
          else none).or (next [] cs) := by
  -- with room for one more round than there can be, the first round can be looked at
  have hone : (many p).ways cs = rounds p.ways (cs.length + 1) cs :=
    rounds_eq_rounds p.ways (Nat.le_refl _) (Nat.le_succ _)
  rw [search, hone, rounds_succ, List.findSome?_append, findSome?_flatMap]
  congr 1
  · rw [search]
    congr 1
    funext ⟨g, rest⟩
    by_cases hshorter : rest.length < cs.length
    · simp only [if_pos hshorter, List.findSome?_map]
      rw [rounds_eq_rounds p.ways (Nat.le_of_lt hshorter) (Nat.le_refl _)]
      rfl
    · simp only [if_neg hshorter, List.findSome?_nil]
  · simp

/-- A character is repeated until the last place that can be gone on from. -/
theorem search_many_one (accepts : Char → Bool) {cs : List Char}
    (h : ∀ c ∈ cs, accepts c = true) (next : Groups → List Char → Option β) :
    (many (one accepts)).search cs next = lastSplit? (fun _ rest => next [] rest) cs := by
  induction cs with
  | nil =>
    rw [search_many, search_one_nil, Option.none_or]
    rfl
  | cons c rest ih =>
    obtain ⟨hc, hrest⟩ := List.forall_mem_cons.mp h
    have hshorter : rest.length < (c :: rest).length := Nat.lt_succ_self _
    rw [search_many, search_one, if_pos hc, if_pos hshorter, lastSplit?, ← ih hrest]
    simp only [List.append_nil]

theorem avoids_rounds {step : List Char → List (Groups × List Char)} {a : Char}
    (hstep : ∀ cs g rest, (g, rest) ∈ step cs → ∃ taken, cs = taken ++ rest ∧ a ∉ taken)
    {limit : Nat} {cs rest : List Char} {g : Groups} (hway : (g, rest) ∈ rounds step limit cs) :
    ∃ taken, cs = taken ++ rest ∧ a ∉ taken := by
  induction limit generalizing cs rest g with
  | zero =>
    obtain ⟨-, rfl⟩ := Prod.mk.inj (List.mem_singleton.mp hway)
    exact ⟨[], rfl, List.not_mem_nil⟩
  | succ limit ih =>
    rw [rounds_succ, List.mem_append, List.mem_flatMap, List.mem_singleton] at hway
    rcases hway with ⟨⟨g₁, rest₁⟩, hround, hmore⟩ | hstop
    · obtain ⟨taken₁, rfl, hclear₁⟩ := hstep _ _ _ hround
      dsimp only at hmore
      split at hmore
      · obtain ⟨⟨g₂, rest₂⟩, hrounds, heq⟩ := List.mem_map.mp hmore
        obtain ⟨-, rfl⟩ := Prod.mk.inj heq
        obtain ⟨taken₂, rfl, hclear₂⟩ := ih hrounds
        exact ⟨taken₁ ++ taken₂, by rw [List.append_assoc],
          fun ha => (List.mem_append.mp ha).elim hclear₁ hclear₂⟩
      · cases hmore
    · obtain ⟨-, rfl⟩ := Prod.mk.inj hstop
      exact ⟨[], rfl, List.not_mem_nil⟩

/-- What a way takes of a text has no character that the pattern avoids. -/
theorem clear_of_mem_ways {a : Char} {p : Pattern} (h : p.avoids a = true) {cs rest : List Char}
    {g : Groups} (hway : (g, rest) ∈ p.ways cs) : ∃ taken, cs = taken ++ rest ∧ a ∉ taken := by
  induction p generalizing cs rest g with
  | one accepts =>
    cases cs with
    | nil => cases hway
    | cons c cs =>
      rw [ways_one_cons] at hway
      split at hway
      next hc =>
        obtain ⟨-, rfl⟩ := Prod.mk.inj (List.mem_singleton.mp hway)
        refine ⟨[c], rfl, ?_⟩
        intro ha
        obtain rfl := List.mem_singleton.mp ha
        simp [avoids, hc] at h
      next => cases hway
  | empty =>
    obtain ⟨-, rfl⟩ := Prod.mk.inj (List.mem_singleton.mp hway)
    exact ⟨[], rfl, List.not_mem_nil⟩
  | seq p q ihp ihq =>
    obtain ⟨hp, hq⟩ := (Bool.and_eq_true _ _).mp h
    rw [ways_seq, List.mem_flatMap] at hway
    obtain ⟨⟨g₁, rest₁⟩, hway₁, hmap⟩ := hway
    obtain ⟨⟨g₂, rest₂⟩, hway₂, heq⟩ := List.mem_map.mp hmap
    obtain ⟨-, rfl⟩ := Prod.mk.inj heq
    obtain ⟨taken₁, rfl, hclear₁⟩ := ihp hp hway₁
    obtain ⟨taken₂, rfl, hclear₂⟩ := ihq hq hway₂
    exact ⟨taken₁ ++ taken₂, by rw [List.append_assoc],
      fun ha => (List.mem_append.mp ha).elim hclear₁ hclear₂⟩
  | either p q ihp ihq =>
    obtain ⟨hp, hq⟩ := (Bool.and_eq_true _ _).mp h
    rw [ways_either, List.mem_append] at hway
    exact hway.elim (ihp hp) (ihq hq)
  | many p ih => exact avoids_rounds (fun _ _ _ hround => ih h hround) hway
  | group n p ih =>
    rw [ways_group] at hway
    obtain ⟨⟨g₁, rest₁⟩, hway₁, heq⟩ := List.mem_map.mp hway
    obtain ⟨-, rfl⟩ := Prod.mk.inj heq
    exact ih h hway₁
  | atEnd =>
    rw [ways_atEnd] at hway
    split at hway
    · obtain ⟨-, rfl⟩ := Prod.mk.inj (List.mem_singleton.mp hway)
      exact ⟨[], rfl, List.not_mem_nil⟩
    · cases hway

/-- A pattern whose last part is the end of the text. -/
def reachesEnd : Pattern → Bool
  | seq _ q => q.reachesEnd
  | atEnd => true
  | _ => false

theorem rest_eq_nil_of_mem_ways {p : Pattern} (h : p.reachesEnd = true) {cs rest : List Char}
    {g : Groups} (hway : (g, rest) ∈ p.ways cs) : rest = [] := by
  induction p generalizing cs rest g with
  | seq p q _ ihq =>
    rw [ways_seq, List.mem_flatMap] at hway
    obtain ⟨⟨g₁, rest₁⟩, -, hmap⟩ := hway
    obtain ⟨⟨g₂, rest₂⟩, hway₂, heq⟩ := List.mem_map.mp hmap
    obtain ⟨-, rfl⟩ := Prod.mk.inj heq
    exact ihq h hway₂
  | atEnd =>
    rw [ways_atEnd] at hway
    split at hway
    next hend =>
      obtain ⟨-, rfl⟩ := Prod.mk.inj (List.mem_singleton.mp hway)
      exact List.isEmpty_iff.mp hend
    next => cases hway
  | one | empty | either | many | group => cases h

end Pattern

end StageVars

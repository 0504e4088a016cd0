import StageVars.Number.Digits
import StageVars.Yaml.Spot
/-!
# StageVars.Yaml.Scalar.Block -- scalars set off by indentation

A literal scalar keeps its line ends; a folded one joins two lines with a blank unless
one of them starts with a blank or an empty line lies between. The column of the
content is given in the header or is the greatest column that the leading blank lines
and the first text line reach. The header also says what becomes of the line ends at
the end: one is kept, none, or all.
-/

namespace StageVars

namespace Yaml

namespace Block

/-- Which line ends at the end of the scalar are kept. -/
inductive Chomping where
  | strip
  | clip
  | keep
deriving DecidableEq, Repr

/-- The first line of a block scalar. -/
structure Header where
  chomping : Chomping
  /-- How far the content is indented, if that is given. -/
  increment : Option Nat
deriving DecidableEq, Repr

/-- A chomping indicator, if there is one. -/
def chomping? : Spots → Option Chomping × Spots
  | [] => (none, [])
  | s :: rest =>
    if s.char = '+' then (some .keep, rest)
    else if s.char = '-' then (some .strip, rest)
    else (none, s :: rest)

/-- An indentation indicator, if there is one; zero is refused. -/
def increment? : Spots → Option (Option Nat × Spots)
  | [] => some (none, [])
  | s :: rest =>
    if s.char.isDigit then
      if s.char = '0' then none else some (some (Digits.decimal [s.char]), rest)
    else some (none, s :: rest)

/-- The header behind its first character, the two indicators in either order. -/
def header? (s : Spots) : Option (Header × Spots) := do
  let (first, s) := chomping? s
  let (increment, s) ← increment? s
  let (chomping, s) := match first with
    | some c => (some c, s)
    | none => if increment.isSome then chomping? s else (none, s)
  let s ← skipLine? s
  return (⟨chomping.getD .clip, increment⟩, s)

/-- Skip indentation and blank lines: the line ends, the greatest column reached, and
what follows. Without a known `indent` all leading blanks are indentation, which no
tab may be part of. -/
def blankLines? (indent : Option Nat) (reached : Nat) : Spots → Option (List Char × Nat × Spots)
  | [] => some ([], reached, [])
  | s :: rest =>
    let inside : Bool := match indent with
      | none => true
      | some n => s.column < n
    if inside ∧ s.char = ' ' then blankLines? indent reached rest
    else
      let reached := max reached s.column
      if inside ∧ s.char = '\t' then none
      else if isBreak s.char then do
        let (breaks, reached, after) ← blankLines? indent reached rest
        return (s.char :: breaks, reached, after)
      else some ([], reached, s :: rest)

/-- The line ends that a reader of lines has seen but not yet written. -/
structure Pending where
  /-- The end of the last text line. -/
  last : List Char
  /-- The blank lines behind it. -/
  blank : List Char
  /-- Whether the last text line started with a blank. -/
  spaced : Bool

/-- The line ends before a text line, as they count in the text. -/
def Pending.join (p : Pending) (folded spaced : Bool) : List Char :=
  if folded ∧ p.last = ['\n'] ∧ ¬p.spaced ∧ ¬spaced then
    if p.blank.isEmpty then [' '] else p.blank
  else p.last ++ p.blank

/-- Read the text lines at a column; `fuel` bounds their number. -/
def lines? (folded : Bool) (indent : Nat) (p : Pending) :
    Nat → Spots → Option (List Char × Pending × Spots)
  | 0, _ => none
  | _ + 1, [] => some ([], p, [])
  | fuel + 1, s :: rest =>
    if s.column ≠ indent then some ([], p, s :: rest)
    else do
      let spaced := isBlank s.char
      let line := (s :: rest).takeWhile fun x => !isBreak x.char
      let after := (s :: rest).dropWhile fun x => !isBreak x.char
      let last := (after.take 1).map Spot.char
      let (blank, _, after) ← blankLines? (some indent) 0 (after.drop 1)
      let (more, p', after) ← lines? folded indent ⟨last, blank, spaced⟩ fuel after
      return (p.join folded spaced ++ line.map Spot.char ++ more, p', after)

/-- A block scalar behind its first character: its text and what follows it. `parent`
is the column of the surrounding block, if there is one. -/
def read? (folded : Bool) (parent : Option Nat) (s : Spots) : Option (List Char × Spots) := do
  let (header, s) ← header? s
  let given := header.increment.map fun n => (parent.getD 0) + n
  let (blank, reached, s) ← blankLines? given 0 s
  let indent := match given with
    | some n => n
    | none => max reached (match parent with | some n => n + 1 | none => 1)
  let (text, p, s) ← lines? folded indent ⟨[], blank, false⟩ (s.length + 1) s
  let tail := match header.chomping with
    | .strip => []
    | .clip => p.last
    | .keep => p.last ++ p.blank
  return (text ++ tail, s)

end Block

end Yaml

end StageVars

import StageVars.Yaml.Spot
/-!
# StageVars.Yaml.Scalar.Gap -- blanks and line ends between the words of a scalar

Within a line the blanks between two words belong to the text. Across lines the
blanks go, the first line end becomes one blank, and each further one counts as a
line end of the text.
-/

namespace StageVars

namespace Yaml

/-- What stood between two words. -/
structure Gap where
  /-- The blanks, if no line ended. -/
  blanks : List Char
  /-- The line ends in order. -/
  breaks : List Char
deriving DecidableEq, Repr

namespace Gap

/-- Whether a line ended in the gap. -/
def isBroken (g : Gap) : Bool := !g.breaks.isEmpty

/-- Read a gap. A tab that stands in a new line before the column `indent` is refused;
`broken` says whether a line has ended before. -/
def read? (indent : Nat) (broken : Bool) : Spots → Option (Gap × Spots)
  | [] => some (⟨[], []⟩, [])
  | s :: rest =>
    if isBlank s.char then
      if broken ∧ s.char = '\t' ∧ s.column < indent then none
      else do
        let (g, after) ← read? indent broken rest
        if broken ∨ g.isBroken then return (⟨[], g.breaks⟩, after)
        else return (⟨s.char :: g.blanks, []⟩, after)
    else if isBreak s.char then do
      let (g, after) ← read? indent true rest
      return (⟨[], s.char :: g.breaks⟩, after)
    else some (⟨[], []⟩, s :: rest)

/-- Line ends as they count in a folded text. -/
def fold : List Char → List Char
  | ['\n'] => [' ']
  | '\n' :: rest => rest
  | breaks => breaks

/-- The text that a gap stands for. -/
def text (g : Gap) : List Char := if g.isBroken then fold g.breaks else g.blanks

end Gap

end Yaml

end StageVars

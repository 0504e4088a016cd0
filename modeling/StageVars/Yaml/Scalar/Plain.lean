import StageVars.Yaml.Scalar.Gap
/-!
# StageVars.Yaml.Scalar.Plain -- scalars without quotes

A plain scalar ends where a colon, a comment, a document mark or, inside brackets, a
bracket or comma ends it; in block context also where a line starts left of its
parent's content.
-/

namespace StageVars

namespace Yaml

/-- The characters that structure flow collections and so end a plain scalar there. -/
def isFlowIndicator (c : Char) : Bool :=
  c == ',' || c == '[' || c == ']' || c == '\x7b' || c == '\x7d'

namespace Plain

/-- Read up to the next gap or the end of the scalar. Inside brackets a colon directly
before an indicator is refused. -/
def word? (inFlow : Bool) : Spots → Option (List Char × Spots)
  | [] => some ([], [])
  | s :: rest =>
    if isBlank s.char || isBreak s.char then some ([], s :: rest)
    else if inFlow && s.char == ':' && startsWith (fun c => isFlowIndicator c || c == '?') rest then
      none
    else if (s.char == ':' && atGap rest) || (inFlow && isFlowIndicator s.char) then
      some ([], s :: rest)
    else do
      let (cs, after) ← word? inFlow rest
      return (s.char :: cs, after)

/-- Read the words of a scalar with the gaps between them; `fuel` bounds their number.
The flag tells whether a line ended behind the last word. -/
def words? (inFlow : Bool) (indent : Nat) : Nat → Spots → Option (List Char × Bool × Spots)
  | 0, _ => none
  | fuel + 1, s =>
    if atDocumentMark s || startsWith (· == '#') s then some ([], false, s)
    else do
      let (cs, s) ← word? inFlow s
      if s.isEmpty || !atGap s then return (cs, false, s)
      let (g, s) ← Gap.read? indent false s
      let outdented := match s with
        | [] => true
        | next :: _ => !inFlow && next.column < indent
      if outdented then return (cs, g.isBroken, s)
      let (more, broken, s) ← words? inFlow indent fuel s
      if more.isEmpty then return (cs, broken || g.isBroken, s)
      else return (cs ++ g.text ++ more, broken, s)

/-- A plain scalar: its text, whether a line ended behind it, and what follows.
`indent` is the column that its further lines must reach. -/
def read? (inFlow : Bool) (indent : Nat) (s : Spots) : Option (List Char × Bool × Spots) :=
  words? inFlow indent (s.length + 1) s

end Plain

end Yaml

end StageVars

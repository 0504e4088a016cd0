/-!
# StageVars.Yaml.Spot -- text with positions

Block structure hangs on columns and keys end with their line, so the characters of a
text are read together with their places. The three ways of ending a line and the
next-line character become one line feed; the line and paragraph separators end a
line too but stay what they are. A text with any other control character is no YAML.
-/

namespace StageVars

namespace Yaml

/-- A character and its place. -/
structure Spot where
  char : Char
  line : Nat
  column : Nat
deriving DecidableEq, Repr, Inhabited

/-- A text with places. -/
abbrev Spots := List Spot

/-- The mark that may stand at the start of a line without being part of it. -/
def byteOrderMark : Char := '\uFEFF'

/-- The characters that a YAML text may hold. -/
def isAllowed (c : Char) : Bool :=
  let n := c.toNat
  n == 0x09 || n == 0x0A || n == 0x0D || (0x20 ≤ n && n ≤ 0x7E) || n == 0x85
    || (0xA0 ≤ n && n ≤ 0xD7FF) || (0xE000 ≤ n && n ≤ 0xFFFD) || 0x10000 ≤ n

/-- The line and paragraph separators. -/
def isSeparator (c : Char) : Bool := c == '\u2028' || c == '\u2029'

/-- Whether a character of a text with places ends a line. -/
def isBreak (c : Char) : Bool := c == '\n' || isSeparator c

/-- Blanks within a line. -/
def isBlank (c : Char) : Bool := c == ' ' || c == '\t'

namespace Spot

/-- Place the characters of a text from a line and column on. -/
def place (line column : Nat) : List Char → Spots
  | [] => []
  | '\r' :: '\n' :: rest => ⟨'\n', line, column⟩ :: place (line + 1) 0 rest
  | c :: rest =>
    if c = '\n' ∨ c = '\r' ∨ c = '\u0085' then ⟨'\n', line, column⟩ :: place (line + 1) 0 rest
    else if isSeparator c then ⟨c, line, column⟩ :: place (line + 1) 0 rest
    else ⟨c, line, column⟩ :: place line (column + 1) rest

/-- The text with places, if all of its characters are allowed. -/
def ofText? (cs : List Char) : Option Spots :=
  if cs.all isAllowed then some (place 0 0 cs) else none

end Spot

/-! ## Looking ahead -/

/-- Whether a text begins with a character of a class. -/
def startsWith (p : Char → Bool) : Spots → Bool
  | [] => false
  | s :: _ => p s.char

/-- Whether a blank, a line's end or the text's end comes next. -/
def atGap : Spots → Bool
  | [] => true
  | s :: _ => isBlank s.char || isBreak s.char

/-- Whether `mark` three times and a gap stand at the start of a line. -/
def atTripleMark (mark : Char) : Spots → Bool
  | a :: b :: c :: rest =>
    a.column == 0 && a.char == mark && b.char == mark && c.char == mark && atGap rest
  | _ => false

/-- Whether a document begins or ends here. -/
def atDocumentMark (s : Spots) : Bool := atTripleMark '-' s || atTripleMark '.' s

/-- The blanks within a line are skipped. -/
def skipBlanks (s : Spots) : Spots := s.dropWhile fun x => isBlank x.char

/-- What is left of the line is skipped if it is blank or a comment, with its end;
anything else on it is refused. -/
def skipLine? (s : Spots) : Option Spots :=
  let s := skipBlanks s
  let s := if startsWith (· == '#') s then s.dropWhile fun x => !isBreak x.char else s
  match s with
  | [] => some []
  | x :: rest => if isBreak x.char then some rest else none

end Yaml

end StageVars

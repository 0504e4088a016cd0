import StageVars.Yaml.Schema
/-!
# StageVars.Yaml.Style -- how a string is written in YAML

A string is written plain if it then reads back as that string. Where it would read
back as something else it stands in single quotes, a text of several lines becomes a
literal scalar, and what none of these can hold stands in double quotes with escapes.
-/

namespace StageVars

namespace Yaml

/-- The ways of writing a string. -/
inductive Style where
  | plain
  | singleQuoted
  | doubleQuoted
  | literal
deriving DecidableEq, Repr

namespace Style

/-- The characters that a reader takes for the end of a line. -/
def isLineEnd (c : Char) : Bool :=
  c == '\n' || c == '\r' || c == '\u0085' || c == '\u2028' || c == '\u2029'

/-- The characters that can be written without an escape. -/
def isPrintable (c : Char) : Bool :=
  let n := c.toNat
  n == 0x0A || (0x20 ≤ n && n ≤ 0x7E) || (0xA0 ≤ n && n ≤ 0xD7FF)
    || (0xE000 ≤ n && n ≤ 0xFFFD && n != 0xFEFF) || 0x10000 ≤ n

/-- The characters between words. -/
def isGap (c : Char) : Bool := c == ' ' || c == '\t' || c == '\x00' || isLineEnd c

/-- Whether a gap or nothing comes next. -/
def beforeGap : List Char → Bool
  | [] => true
  | c :: _ => isGap c

/-- Whether two neighbours satisfy a relation. -/
def hasNeighbours (r : Char → Char → Bool) (cs : List Char) : Bool :=
  (cs.zip (cs.drop 1)).any fun (a, b) => r a b

/-- The characters that no plain text starts with. -/
def isLeadingIndicator (c : Char) : Bool := "#,[]\x7b\x7d&*!|>'\"%@`".toList.contains c

/-- Whether the first character of a plain text would be taken for structure. -/
def startsStructure : List Char → Bool
  | [] => false
  | c :: rest =>
    isLeadingIndicator c || (("?:-".toList.contains c) && beforeGap rest)
      || (c :: rest).take 3 == ['-', '-', '-'] || (c :: rest).take 3 == ['.', '.', '.']

/-- Whether a colon before a gap or a comment mark behind one lies behind the first
character; `prev` is the character before. -/
def hasStructure (prev : Char) : List Char → Bool
  | [] => false
  | c :: rest =>
    (c == ':' && beforeGap rest) || (c == '#' && isGap prev) || hasStructure c rest

/-- Whether a text would be taken for structure if it were plain. -/
def looksStructured (cs : List Char) : Bool :=
  startsStructure cs || match cs with
    | [] => false
    | c :: rest => hasStructure c rest

/-- Whether a text has more than one line. -/
def isMultiline (cs : List Char) : Bool := cs.any isLineEnd

/-- Whether a text has characters that need escapes, or a line that ends with a blank. -/
def needsEscapes (cs : List Char) : Bool :=
  cs.any (!isPrintable ·) || hasNeighbours (fun a b => a == ' ' && isLineEnd b) cs

/-- Whether a text may be plain. -/
def allowsPlain (cs : List Char) : Bool :=
  let outer (c : Option Char) : Bool := c == some ' '
  !(outer cs.head? || outer cs.getLast? || isMultiline cs || needsEscapes cs || looksStructured cs)

/-- Whether a text may stand in single quotes. -/
def allowsSingleQuoted (cs : List Char) : Bool :=
  !(needsEscapes cs || hasNeighbours (fun a b => isLineEnd a && b == ' ') cs)

/-- Whether a text may be a literal scalar. -/
def allowsLiteral (cs : List Char) : Bool :=
  !(cs.isEmpty || cs.getLast? == some ' ' || needsEscapes cs)

/-- Whether a plain text would not be read back as a string, by this schema or by one
that reads needless zeros as numbers. -/
def isAmbiguous (s : String) : Bool :=
  Schema.meaning s != .text || Schema.hasNeedlessZero s.toList

/-- The style of a string. -/
def ofString (s : String) : Style :=
  let cs := s.toList
  let single := if allowsSingleQuoted cs then singleQuoted else doubleQuoted
  if cs.contains '\n' then if allowsLiteral cs then literal else doubleQuoted
  else if isAmbiguous s then single
  else if allowsPlain cs then plain
  else single

end Style

end Yaml

end StageVars

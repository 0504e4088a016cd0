import StageVars.Number.Layout
import StageVars.Value.Basic
import StageVars.Yaml.Style
/-!
# StageVars.Yaml.Text -- writing trees as YAML

Collections are written in block style, two blanks for each level, empty ones in
brackets. A sequence under a key is not indented; everything else is. A key that has
several lines or more than 128 octets stands behind a question mark and its value on
a line of its own. Every writer takes the text that follows.
-/

namespace StageVars

namespace Yaml

/-- Floating-point numbers are written without an exponent from `10 ^ -5` up to
`10 ^ 15`; a positive exponent has no sign. -/
def floatLayout : FloatLayout := ⟨-5, 15, ""⟩

/-- Blanks. -/
def blanks (n : Nat) : List Char := List.replicate n ' '

/-! ## Strings -/

/-- Text in single quotes up to and with the closing quote: a quote is doubled, and a
line behind a separator is indented. -/
def writeSingleQuoted (indent : Nat) (broken : Bool) : List Char → List Char
  | [] => (if broken then blanks indent else []) ++ ['\'']
  | c :: rest =>
    if Style.isLineEnd c then c :: writeSingleQuoted indent true rest
    else
      (if broken then blanks indent else []) ++
        (if c = '\'' then ['\'', '\''] else [c]) ++ writeSingleQuoted indent false rest

/-- A number in a fixed count of upper-case hexadecimal digits. -/
def hexDigits : Nat → Nat → List Char
  | 0, _ => []
  | count + 1, n => hexDigits count (n / 16) ++ [(Nat.digitChar (n % 16)).toUpper]

/-- The escape of a character. -/
def escape (c : Char) : List Char :=
  '\\' :: match c with
    | '\x00' => ['0']
    | '\x07' => ['a']
    | '\x08' => ['b']
    | '\t' => ['t']
    | '\n' => ['n']
    | '\x0b' => ['v']
    | '\x0c' => ['f']
    | '\r' => ['r']
    | '\x1b' => ['e']
    | '"' => ['"']
    | '\\' => ['\\']
    | '\u0085' => ['N']
    | '\u00a0' => ['_']
    | '\u2028' => ['L']
    | '\u2029' => ['P']
    | c =>
      let n := c.toNat
      if n ≤ 0xFF then 'x' :: hexDigits 2 n
      else if n ≤ 0xFFFF then 'u' :: hexDigits 4 n
      else 'U' :: hexDigits 8 n

/-- A character between double quotes. -/
def doubleQuotedChar (c : Char) : List Char :=
  if !Style.isPrintable c || Style.isLineEnd c || c == '"' || c == '\\' then escape c else [c]

/-- The indicators of a literal scalar: the indentation where the first line does not
show it, and which line ends at the end count. -/
def literalHeader (cs : List Char) : List Char :=
  let hidden := match cs with
    | [] => false
    | c :: _ => c == ' ' || Style.isLineEnd c
  let chomping := match cs.reverse with
    | [] => ['-']
    | [c] => if Style.isLineEnd c then ['+'] else ['-']
    | c :: d :: _ =>
      if !Style.isLineEnd c then ['-'] else if Style.isLineEnd d then ['+'] else []
  '|' :: ((if hidden then ['2'] else []) ++ chomping)

/-- The lines of a literal scalar, each indented unless it is empty. -/
def writeLiteral (indent : Nat) (broken : Bool) : List Char → List Char
  | [] => []
  | c :: rest =>
    if Style.isLineEnd c then c :: writeLiteral indent true rest
    else (if broken then blanks indent else []) ++ c :: writeLiteral indent false rest

/-- A string whose further lines are indented. -/
def stringText (indent : Nat) (s : String) : List Char :=
  let cs := s.toList
  match Style.ofString s with
  | .plain => cs
  | .singleQuoted => '\'' :: writeSingleQuoted indent false cs
  | .doubleQuoted => '"' :: (cs.flatMap doubleQuotedChar ++ ['"'])
  | .literal => literalHeader cs ++ '\n' :: writeLiteral indent true cs

/-! ## Trees -/

/-- The text of a number. -/
def numberText : Number → List Char
  | .integer n => (if n < 0 then ['-'] else []) ++ Nat.toDigits 10 n.natAbs
  | .float x => (floatLayout.write x).toList

/-- The text of a tree without parts; further lines of a string are indented. -/
def leafText (indent : Nat) : Value → List Char
  | .null => "null".toList
  | .bool true => "true".toList
  | .bool false => "false".toList
  | .number n => numberText n
  | .string s => stringText indent s
  | .array _ => ['[', ']']
  | .object _ => ['\x7b', '\x7d']

/-- End a line before `after`, unless its text has ended it. -/
def endLine (text after : List Char) : List Char :=
  match text.getLast? with
  | some c => text ++ (if Style.isLineEnd c then after else '\n' :: after)
  | none => '\n' :: after

/-- Whether a key can stand before its colon on one line. -/
def isSimpleKey (key : String) : Bool :=
  !Style.isMultiline key.toList && key.utf8ByteSize ≤ 128

/-- A key with its colon. -/
def keyText (indent : Nat) (key : String) : List Char :=
  if isSimpleKey key then stringText (indent + 2) key ++ [':']
  else '?' :: ' ' :: endLine (stringText (indent + 2) key) (blanks indent ++ [':'])

mutual

/-- A tree behind a dash or a colon. Behind a simple key (`below`) the parts of a
collection start on the next line, and a sequence is not indented; otherwise the first
part stands on the same line. -/
def writeValue (below : Bool) (indent : Nat) (v : Value) (after : List Char) : List Char :=
  match v with
  | .array (item :: items) =>
    let inner := if below then indent else indent + 2
    (if below then '\n' :: blanks inner else [' ']) ++
      '-' :: writeValue false inner item (writeItems inner items after)
  | .object ((key, value) :: pairs) =>
    let inner := indent + 2
    (if below then '\n' :: blanks inner else [' ']) ++ keyText inner key ++
      writeValue (isSimpleKey key) inner value (writePairs inner pairs after)
  | leaf => ' ' :: endLine (leafText (indent + 2) leaf) after
termination_by structural v

/-- The items of a sequence, each on lines of its own. -/
def writeItems (indent : Nat) (items : List Value) (after : List Char) : List Char :=
  match items with
  | [] => after
  | item :: rest =>
    blanks indent ++ '-' :: writeValue false indent item (writeItems indent rest after)
termination_by structural items

/-- The pairs of a mapping, each on lines of its own. -/
def writePairs (indent : Nat) (pairs : Fields) (after : List Char) : List Char :=
  match pairs with
  | [] => after
  | (key, value) :: rest =>
    blanks indent ++ keyText indent key ++
      writeValue (isSimpleKey key) indent value (writePairs indent rest after)
termination_by structural pairs

end

/-- The text of a tree as a document. -/
def text (v : Value) : String :=
  String.ofList <| match v with
    | .array (item :: items) => writeItems 0 (item :: items) []
    | .object (pair :: pairs) => writePairs 0 (pair :: pairs) []
    | leaf => endLine (leafText 2 leaf) []

end Yaml

end StageVars

import StageVars.Number.Layout
import StageVars.Value.Basic
/-!
# StageVars.Json.Text -- writing trees as JSON

Two layouts of one tree: compact, without any blanks, and pretty, with two blanks
for each level and empty containers on one line. Characters beyond ASCII stand for
themselves. Every writer takes the text that follows, so the text of a tree never
depends on its surroundings.
-/

namespace StageVars

namespace Json

/-- Floating-point numbers are written without an exponent from `10 ^ -5` up to
`10 ^ 15`, and exponents carry their sign. -/
def floatLayout : FloatLayout := ⟨-5, 15, "+"⟩

/-- A lower-case hexadecimal digit. -/
def hexDigit (n : Nat) : Char := Nat.digitChar n

/-- A character inside a quoted text. -/
def escaped (c : Char) : List Char :=
  match c with
  | '"' => ['\\', '"']
  | '\\' => ['\\', '\\']
  | '\x08' => ['\\', 'b']
  | '\x0c' => ['\\', 'f']
  | '\n' => ['\\', 'n']
  | '\r' => ['\\', 'r']
  | '\t' => ['\\', 't']
  | c =>
    if c.toNat < 0x20 then ['\\', 'u', '0', '0', hexDigit (c.toNat / 16), hexDigit (c.toNat % 16)]
    else [c]

/-- The characters of a quoted text up to and with the closing quote, before `after`. -/
def writeQuoted : List Char → List Char → List Char
  | [], after => '"' :: after
  | c :: rest, after => escaped c ++ writeQuoted rest after

/-- A quoted text before `after`. -/
def writeString (s : String) (after : List Char) : List Char :=
  '"' :: writeQuoted s.toList after

/-- A number before `after`. -/
def writeNumber (n : Number) (after : List Char) : List Char :=
  match n with
  | .integer i =>
    if i < 0 then '-' :: (Nat.toDigits 10 i.natAbs ++ after) else Nat.toDigits 10 i.natAbs ++ after
  | .float x => (floatLayout.write x).toList ++ after

/-- A tree without parts, before `after`. -/
def writeLeaf (v : Value) (after : List Char) : List Char :=
  match v with
  | .null => 'n' :: 'u' :: 'l' :: 'l' :: after
  | .bool true => 't' :: 'r' :: 'u' :: 'e' :: after
  | .bool false => 'f' :: 'a' :: 'l' :: 's' :: 'e' :: after
  | .number n => writeNumber n after
  | .string s => writeString s after
  | .array _ => '[' :: ']' :: after
  | .object _ => '\x7b' :: '\x7d' :: after

/-! ## Compact -/

mutual

/-- The compact text of a tree before `after`. -/
def writeCompact (v : Value) (after : List Char) : List Char :=
  match v with
  | .array items => '[' :: writeCompactItems items (']' :: after)
  | .object fields => '\x7b' :: writeCompactFields fields ('\x7d' :: after)
  | leaf => writeLeaf leaf after
termination_by structural v

/-- The items of an array, separated by commas, before `after`. -/
def writeCompactItems (items : List Value) (after : List Char) : List Char :=
  match items with
  | [] => after
  | [v] => writeCompact v after
  | v :: rest => writeCompact v (',' :: writeCompactItems rest after)
termination_by structural items

/-- The entries of an object, separated by commas, before `after`. -/
def writeCompactFields (fields : Fields) (after : List Char) : List Char :=
  match fields with
  | [] => after
  | [(k, v)] => writeString k (':' :: writeCompact v after)
  | (k, v) :: rest =>
    writeString k (':' :: writeCompact v (',' :: writeCompactFields rest after))
termination_by structural fields

end

/-- The compact text of a tree. -/
def compact (v : Value) : String := String.ofList (writeCompact v [])

/-! ## Pretty -/

/-- A new line at a level of nesting, before `after`. -/
def newLine (level : Nat) (after : List Char) : List Char :=
  '\n' :: (List.replicate (2 * level) ' ' ++ after)

mutual

/-- The pretty text of a tree at a level of nesting, before `after`. -/
def writePretty (level : Nat) (v : Value) (after : List Char) : List Char :=
  match v with
  | .array [] => writeLeaf v after
  | .object [] => writeLeaf v after
  | .array (item :: items) =>
    '[' :: newLine (level + 1) (writePretty (level + 1) item
      (writePrettyItems (level + 1) items (newLine level (']' :: after))))
  | .object ((k, item) :: fields) =>
    '\x7b' :: newLine (level + 1) (writeString k (':' :: ' ' :: writePretty (level + 1) item
      (writePrettyFields (level + 1) fields (newLine level ('\x7d' :: after)))))
  | leaf => writeLeaf leaf after
termination_by structural v

/-- The items behind the first, each on a line of its own, before `after`. -/
def writePrettyItems (level : Nat) (items : List Value) (after : List Char) : List Char :=
  match items with
  | [] => after
  | v :: rest =>
    ',' :: newLine level (writePretty level v (writePrettyItems level rest after))
termination_by structural items

/-- The entries behind the first, each on a line of its own, before `after`. -/
def writePrettyFields (level : Nat) (fields : Fields) (after : List Char) : List Char :=
  match fields with
  | [] => after
  | (k, v) :: rest =>
    ',' :: newLine level (writeString k (':' :: ' ' :: writePretty level v
      (writePrettyFields level rest after)))
termination_by structural fields

end

/-- The pretty text of a tree, without a line end behind it. -/
def pretty (v : Value) : String := String.ofList (writePretty 0 v [])

end Json

end StageVars

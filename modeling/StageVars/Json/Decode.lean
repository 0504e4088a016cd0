import StageVars.Value.Fields
import StageVars.Json.Numeral
/-!
# StageVars.Json.Decode -- reading JSON texts

The strict grammar: one tree with blanks around it and nothing else. Strings hold no
bare control characters, and escapes by code unit must form whole characters. A key
that comes twice has its last value in its first place. Containers nest to a limit.
-/

namespace StageVars

namespace Json

/-- The blanks of JSON. -/
def isBlank (c : Char) : Bool := c == ' ' || c == '\n' || c == '\t' || c == '\r'

/-- What follows the blanks. -/
def skipBlanks (cs : List Char) : List Char := cs.dropWhile isBlank

/-! ## Strings -/

/-- The code unit that four hexadecimal digits write. -/
def codeUnit? (a b c d : Char) : Option Nat := Digits.natural? 16 [a, b, c, d]

/-- Whether a code unit is the first of a pair. -/
def isHighSurrogate (n : Nat) : Bool := 0xD800 ≤ n && n ≤ 0xDBFF

/-- Whether a code unit is the second of a pair. -/
def isLowSurrogate (n : Nat) : Bool := 0xDC00 ≤ n && n ≤ 0xDFFF

/-- The character that a pair of code units stands for. -/
def joinSurrogates (high low : Nat) : Char :=
  Char.ofNat (0x10000 + (high - 0xD800) * 0x400 + (low - 0xDC00))

/-- The character behind a backslash, code units apart. -/
def shortEscape? : Char → Option Char
  | '"' => some '"'
  | '\\' => some '\\'
  | '/' => some '/'
  | 'b' => some '\x08'
  | 'f' => some '\x0c'
  | 'n' => some '\n'
  | 'r' => some '\r'
  | 't' => some '\t'
  | _ => none

/-- The characters up to the closing quote, and what follows it. -/
def quoted? : List Char → Option (List Char × List Char)
  | [] => none
  | '"' :: rest => some ([], rest)
  | '\\' :: 'u' :: a :: b :: c :: d :: rest => do
    let unit ← codeUnit? a b c d
    if isLowSurrogate unit then none
    else if isHighSurrogate unit then
      match rest with
      | '\\' :: 'u' :: e :: f :: g :: h :: rest => do
        let low ← codeUnit? e f g h
        if isLowSurrogate low then
          let (cs, rest) ← quoted? rest
          return (joinSurrogates unit low :: cs, rest)
        else none
      | _ => none
    else
      let (cs, rest) ← quoted? rest
      return (Char.ofNat unit :: cs, rest)
  | '\\' :: e :: rest => do
    let c ← shortEscape? e
    let (cs, rest) ← quoted? rest
    return (c :: cs, rest)
  | c :: rest =>
    if c.toNat < 0x20 ∨ c = '\\' then none
    else do
      let (cs, rest) ← quoted? rest
      return (c :: cs, rest)

/-- A key with its colon, and what follows that. -/
def key? (cs : List Char) : Option (String × List Char) :=
  match skipBlanks cs with
  | '"' :: rest => do
    let (k, rest) ← quoted? rest
    match skipBlanks rest with
    | ':' :: rest => some (String.ofList k, rest)
    | _ => none
  | _ => none

/-! ## Trees -/

mutual

/-- A tree with at most `depth` containers inside each other, and what follows it. -/
def value? (fuel depth : Nat) (cs : List Char) : Option (Value × List Char) :=
  match fuel with
  | 0 => none
  | fuel + 1 =>
    match skipBlanks cs with
    | 'n' :: 'u' :: 'l' :: 'l' :: rest => some (.null, rest)
    | 't' :: 'r' :: 'u' :: 'e' :: rest => some (.bool true, rest)
    | 'f' :: 'a' :: 'l' :: 's' :: 'e' :: rest => some (.bool false, rest)
    | '"' :: rest => do
      let (s, rest) ← quoted? rest
      return (.string (String.ofList s), rest)
    | '[' :: rest =>
      match depth with
      | 0 => none
      | depth + 1 =>
        match skipBlanks rest with
        | ']' :: rest => some (.array [], rest)
        | rest => do
          let (items, rest) ← items? fuel depth rest
          return (.array items, rest)
    | '\x7b' :: rest =>
      match depth with
      | 0 => none
      | depth + 1 =>
        match skipBlanks rest with
        | '\x7d' :: rest => some (.object [], rest)
        | rest => do
          let (entries, rest) ← entries? fuel depth rest
          return (.object (Fields.ofEntries entries), rest)
    | cs => do
      let (n, rest) ← numeral? cs
      return (.number (← n.number?), rest)
termination_by structural fuel

/-- The items of an array up to its closing bracket, at least one. -/
def items? (fuel depth : Nat) (cs : List Char) : Option (List Value × List Char) :=
  match fuel with
  | 0 => none
  | fuel + 1 => do
    let (v, rest) ← value? fuel depth cs
    match skipBlanks rest with
    | ',' :: rest => do
      let (vs, rest) ← items? fuel depth rest
      return (v :: vs, rest)
    | ']' :: rest => some ([v], rest)
    | _ => none
termination_by structural fuel

/-- The entries of an object up to its closing brace, at least one. -/
def entries? (fuel depth : Nat) (cs : List Char) : Option (Fields × List Char) :=
  match fuel with
  | 0 => none
  | fuel + 1 => do
    let (k, rest) ← key? cs
    let (v, rest) ← value? fuel depth rest
    match skipBlanks rest with
    | ',' :: rest => do
      let (entries, rest) ← entries? fuel depth rest
      return ((k, v) :: entries, rest)
    | '\x7d' :: rest => some ([(k, v)], rest)
    | _ => none
termination_by structural fuel

end

/-- The tree of a text in which at most `depth` containers nest. Every step that does
not consume a character opens a container or starts an item, so twice the length of
the text is enough fuel. -/
def decodeWithin? (depth : Nat) (text : String) : Option Value :=
  let cs := text.toList
  match value? (2 * cs.length + 2) depth cs with
  | some (v, rest) => if (skipBlanks rest).isEmpty then some v else none
  | none => none

/-- At most this many containers nest in a document. -/
def maxDepth : Nat := 127

/-- The tree of a text. -/
def decode? (text : String) : Option Value := decodeWithin? maxDepth text

end Json

end StageVars

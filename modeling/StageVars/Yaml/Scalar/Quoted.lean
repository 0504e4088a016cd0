import StageVars.Number.Digits
import StageVars.Yaml.Scalar.Gap
/-!
# StageVars.Yaml.Scalar.Quoted -- scalars in quotes

Between single quotes a doubled quote stands for one. Between double quotes a
backslash starts an escape: a short one, a code point in two, four or eight
hexadecimal digits, or a line end that joins its lines without a blank. Lines are
folded, and no document mark may start one of them.
-/

namespace StageVars

namespace Yaml

namespace Quoted

/-- What a character behind a backslash stands for. -/
inductive Escape where
  | char (c : Char)
  | codePoint (digits : Nat)
deriving DecidableEq, Repr

/-- The meaning of the character behind a backslash. -/
def escape? : Char → Option Escape
  | '0' => some (.char '\x00')
  | 'a' => some (.char '\x07')
  | 'b' => some (.char '\x08')
  | 't' => some (.char '\t')
  | '\t' => some (.char '\t')
  | 'n' => some (.char '\n')
  | 'v' => some (.char '\x0b')
  | 'f' => some (.char '\x0c')
  | 'r' => some (.char '\r')
  | 'e' => some (.char '\x1b')
  | ' ' => some (.char ' ')
  | '"' => some (.char '"')
  | '/' => some (.char '/')
  | '\\' => some (.char '\\')
  | 'N' => some (.char '\u0085')
  | '_' => some (.char '\u00a0')
  | 'L' => some (.char '\u2028')
  | 'P' => some (.char '\u2029')
  | 'x' => some (.codePoint 2)
  | 'u' => some (.codePoint 4)
  | 'U' => some (.codePoint 8)
  | _ => none

/-- The number that exactly `count` hexadecimal digits write after `acc`. -/
def hexNumber? : Nat → Nat → Spots → Option (Nat × Spots)
  | 0, acc, s => some (acc, s)
  | _ + 1, _, [] => none
  | count + 1, acc, s :: rest => do hexNumber? count (16 * acc + (← Digits.hex? s.char)) rest

/-- The character with a code point; surrogates and numbers beyond the last are none. -/
def charOf? (n : Nat) : Option Char := if n.isValidChar then some (Char.ofNat n) else none

/-- The character that an escape stands for, and what follows the escape. -/
def escaped? (e : Char) (rest : Spots) : Option (Char × Spots) := do
  match ← escape? e with
  | .char c => return (c, rest)
  | .codePoint digits =>
    let (n, rest) ← hexNumber? digits 0 rest
    return (← charOf? n, rest)

/-- Read up to the next gap or the closing quote; `fuel` bounds the number of steps.
The flag tells whether a line end was escaped. -/
def word? (single : Bool) : Nat → Spots → Option (List Char × Bool × Spots)
  | 0, _ => none
  | _ + 1, [] => some ([], false, [])
  | fuel + 1, s :: rest =>
    if isBlank s.char || isBreak s.char then some ([], false, s :: rest)
    else if single then
      if s.char = '\'' then
        if startsWith (· == '\'') rest then do
          let (cs, joined, after) ← word? single fuel (rest.drop 1)
          return ('\'' :: cs, joined, after)
        else some ([], false, s :: rest)
      else do
        let (cs, joined, after) ← word? single fuel rest
        return (s.char :: cs, joined, after)
    else if s.char = '"' then some ([], false, s :: rest)
    else if s.char = '\\' then
      match rest with
      | [] => none
      | e :: rest =>
        if isBreak e.char then some ([], true, rest)
        else do
          let (c, rest) ← escaped? e.char rest
          let (cs, joined, after) ← word? single fuel rest
          return (c :: cs, joined, after)
    else do
      let (cs, joined, after) ← word? single fuel rest
      return (s.char :: cs, joined, after)

/-- Read words and gaps up to and with the closing quote; `fuel` bounds their number. -/
def words? (single : Bool) : Nat → Spots → Option (List Char × Spots)
  | 0, _ => none
  | fuel + 1, s =>
    if atDocumentMark s || s.isEmpty then none
    else do
      let (cs, joined, s) ← word? single (s.length + 1) s
      if startsWith (· == (if single then '\'' else '"')) s then
        return (cs, s.drop 1)
      let (g, s) ← Gap.read? 0 joined s
      let (more, s) ← words? single fuel s
      return (cs ++ (if joined then g.breaks else g.text) ++ more, s)

/-- A quoted scalar behind its opening quote: its text and what follows it. -/
def read? (single : Bool) (s : Spots) : Option (List Char × Spots) :=
  words? single (s.length + 1) s

end Quoted

end Yaml

end StageVars

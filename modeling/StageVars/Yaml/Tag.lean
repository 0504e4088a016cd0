import StageVars.Yaml.Token
import StageVars.Yaml.Scalar.Quoted
/-!
# StageVars.Yaml.Tag -- names, tags and directives

A tag is written in full between angle brackets, or as a handle and a suffix. The
suffix may hold octets written with percent signs, which must have the outline of
well-formed text.
-/

namespace StageVars

namespace Yaml

/-- The characters of anchors, handles and directive names. -/
def isNameChar (c : Char) : Bool := c.isAlphanum || c == '_' || c == '-'

/-- The characters of a name, and what follows. -/
def takeName (s : Spots) : String × Spots :=
  (String.ofList ((s.takeWhile fun x => isNameChar x.char).map Spot.char),
    s.dropWhile fun x => isNameChar x.char)

/-- The name of an anchor or alias behind its first character. -/
def anchorName? (s : Spots) : Option (String × Spots) :=
  let (name, after) := takeName s
  let ends := atGap after || startsWith (fun c => "?:,]\x7d%@`".toList.contains c) after
  if name.isEmpty || !ends then none else some (name, after)

/-! ## Octets -/

/-- The octets of a character. -/
def octetsOf (c : Char) : Octets := c.toString.toUTF8.toList

/-- An octet written as a percent sign and two hexadecimal digits. -/
def percentOctet? : Spots → Option (Nat × Spots)
  | p :: a :: b :: rest => do
    if p.char = '%' then return (16 * (← Digits.hex? a.char) + (← Digits.hex? b.char), rest)
    else none
  | _ => none

/-- How many octets a character takes whose first octet is this. -/
def octetCount (lead : Nat) : Nat :=
  if lead < 0x80 then 1
  else if lead < 0xC0 then 0
  else if lead < 0xE0 then 2
  else if lead < 0xF0 then 3
  else if lead < 0xF8 then 4
  else 0

/-- `count` octets that continue a character. -/
def continuation? : Nat → Spots → Option (Octets × Spots)
  | 0, s => some ([], s)
  | count + 1, s => do
    let (octet, s) ← percentOctet? s
    if octet < 0x80 ∨ 0xC0 ≤ octet then none
    else do
      let (more, s) ← continuation? count s
      return (UInt8.ofNat octet :: more, s)

/-- The octets of one character written with percent signs. -/
def percentChar? (s : Spots) : Option (Octets × Spots) := do
  let (lead, s) ← percentOctet? s
  match octetCount lead with
  | 0 => none
  | count + 1 =>
    let (more, s) ← continuation? count s
    return (UInt8.ofNat lead :: more, s)

/-- The characters of a tag; those that structure flow collections only in full tags. -/
def isTagChar (full : Bool) (c : Char) : Bool :=
  isNameChar c || ";/?:@&=+$.%!~*'()".toList.contains c || (full && ",[]".toList.contains c)

/-- The octets of a tag text; `fuel` bounds their number. -/
def tagText? (full : Bool) : Nat → Spots → Option (Octets × Spots)
  | 0, _ => none
  | _ + 1, [] => some ([], [])
  | fuel + 1, s :: rest =>
    if !isTagChar full s.char then some ([], s :: rest)
    else do
      let (octets, after) ← if s.char = '%' then percentChar? (s :: rest) else
        some (octetsOf s.char, rest)
      let (more, after) ← tagText? full fuel after
      return (octets ++ more, after)

/-- A tag text that is not empty. -/
def someTagText? (full : Bool) (s : Spots) : Option (Octets × Spots) := do
  let (octets, after) ← tagText? full (s.length + 1) s
  if octets.isEmpty then none else return (octets, after)

/-! ## Tags -/

/-- An exclamation mark with name characters behind it and maybe a second mark: the
name, and whether the second mark came. -/
def handle? : Spots → Option (String × Bool × Spots)
  | [] => none
  | s :: rest =>
    if s.char ≠ '!' then none
    else
      let (name, after) := takeName rest
      if startsWith (· == '!') after then some (name, true, after.drop 1)
      else some (name, false, after)

/-- Whether a tag may end here: before a gap, in flow context also before a comma. -/
def tagEnds (inFlow : Bool) (s : Spots) : Bool :=
  atGap s || (inFlow && startsWith (· == ',') s)

/-- A tag with its exclamation mark. A full tag has the empty handle, and so has the
lone mark, which is its own suffix. -/
def tag? (inFlow : Bool) (s : Spots) : Option (Token × Spots) := do
  let (token, after) ←
    if startsWith (· == '<') (s.drop 1) then do
      let (suffix, after) ← someTagText? true (s.drop 2)
      if startsWith (· == '>') after then some (Token.tag "" suffix, after.drop 1) else none
    else do
      let (name, closed, after) ← handle? s
      if closed then
        let (suffix, after) ← someTagText? false after
        return (Token.tag ("!" ++ name ++ "!") suffix, after)
      else
        let (more, after) ← tagText? false (after.length + 1) after
        let suffix := name.toUTF8.toList ++ more
        if suffix.isEmpty then return (Token.tag "" (octetsOf '!'), after)
        else return (Token.tag "!" suffix, after)
  if tagEnds inFlow after then return (token, after) else none

/-! ## Directives -/

/-- A version number of at most nine digits. -/
def versionNumber? (s : Spots) : Option (Nat × Spots) :=
  let ds := (s.takeWhile fun x => x.char.isDigit).map Spot.char
  if ds.isEmpty || ds.length > 9 then none else some (Digits.decimal ds, s.drop ds.length)

/-- The value of a version directive. -/
def version? (s : Spots) : Option (Token × Spots) := do
  let (major, s) ← versionNumber? (skipBlanks s)
  if !startsWith (· == '.') s then none
  else
    let (minor, s) ← versionNumber? (s.drop 1)
    return (.versionDirective major minor, s)

/-- The value of a tag directive: a handle and what it expands to. -/
def tagDirective? (s : Spots) : Option (Token × Spots) := do
  let (name, closed, s) ← handle? (skipBlanks s)
  if (!closed && !name.isEmpty) || !startsWith isBlank s then none
  else
    let (expansion, s) ← someTagText? true (skipBlanks s)
    let handle := if closed then "!" ++ name ++ "!" else "!"
    if atGap s then return (.tagDirective handle expansion, s) else none

/-- A directive behind its percent sign, up to the end of its line. -/
def directive? (s : Spots) : Option (Token × Spots) := do
  let (name, s) := takeName s
  if !atGap s then none
  else
    let (token, s) ← match name with
      | "YAML" => version? s
      | "TAG" => tagDirective? s
      | _ => none
    return (token, ← skipLine? s)

end Yaml

end StageVars

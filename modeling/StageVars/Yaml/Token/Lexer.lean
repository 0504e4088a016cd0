import StageVars.Yaml.Tag
import StageVars.Yaml.Scalar.Plain
import StageVars.Yaml.Scalar.Block
/-!
# StageVars.Yaml.Token.Lexer -- from text to tokens

Whether a scalar is a key shows only at the colon behind it. Wherever a key could
start, its place among the tokens is therefore remembered; the colon puts a key token
there, and in block context the start of a mapping if the key stands right of the
surrounding block. A remembered place is given up at the end of its line or after
1024 characters; where the block demands a key, giving up is an error.
-/

namespace StageVars

namespace Yaml

/-- A place where a key may have started. -/
structure Candidate where
  /-- The number of the token that the key would begin with. -/
  position : Nat
  /-- Whether the block allows nothing but a key here. -/
  required : Bool
  line : Nat
  column : Nat
deriving DecidableEq, Repr

/-- What the lexer knows between two tokens. -/
structure Lexer where
  /-- The columns of the open blocks, the innermost first. -/
  blocks : List Nat
  /-- The candidate outside of all brackets. -/
  outer : Option Candidate
  /-- The candidates inside each open bracket, the innermost first. -/
  flows : List (Option Candidate)
  /-- Whether a key may start here. -/
  keyAllowed : Bool
  /-- The tokens so far, the latest first. -/
  tokens : List Token
  /-- How many tokens there are. -/
  count : Nat

namespace Lexer

/-- The state at the start of a text. -/
def start : Lexer := ⟨[], none, [], true, [], 0⟩

/-- Whether a bracket is open. -/
def inFlow (lx : Lexer) : Bool := !lx.flows.isEmpty

/-- The candidate of the innermost bracket, or the outer one. -/
def candidate (lx : Lexer) : Option Candidate :=
  match lx.flows with
  | [] => lx.outer
  | c :: _ => c

/-- Replace the candidate of the innermost bracket, or the outer one. -/
def setCandidate (lx : Lexer) (c : Option Candidate) : Lexer :=
  match lx.flows with
  | [] => { lx with outer := c }
  | _ :: rest => { lx with flows := c :: rest }

/-- Allow or forbid a key at the next token. -/
def allowKey (lx : Lexer) (allowed : Bool) : Lexer := { lx with keyAllowed := allowed }

/-- Add a token. -/
def emit (lx : Lexer) (t : Token) : Lexer :=
  { lx with tokens := t :: lx.tokens, count := lx.count + 1 }

/-- Add a token before the one with this number. -/
def emitAt (lx : Lexer) (position : Nat) (t : Token) : Lexer :=
  { lx with
    tokens := lx.tokens.insertIdx (lx.count - position) t
    count := lx.count + 1 }

/-! ## Blocks -/

/-- Whether a column lies right of the innermost block. -/
def opensBlock (lx : Lexer) (column : Nat) : Bool :=
  match lx.blocks with
  | [] => true
  | b :: _ => b < column

/-- Open a block at a column that lies right of the innermost one; its start token
comes before the token with the given number. Brackets open no blocks. -/
def openBlock (lx : Lexer) (column position : Nat) (t : Token) : Lexer :=
  if lx.inFlow || !lx.opensBlock column then lx
  else { lx.emitAt position t with blocks := column :: lx.blocks }

/-- Close the blocks right of a column, or all of them. -/
def closeBlocks (lx : Lexer) (column : Option Nat) : Lexer :=
  if lx.inFlow then lx
  else
    let closes (b : Nat) : Bool := match column with
      | none => true
      | some c => c < b
    let closed := lx.blocks.takeWhile closes
    { closed.foldl (fun lx _ => lx.emit .blockEnd) lx with blocks := lx.blocks.dropWhile closes }

/-! ## Candidates -/

/-- Give up a candidate; where a key was required this is an error. -/
def dropCandidate? (lx : Lexer) : Option Lexer :=
  match lx.candidate with
  | some c => if c.required then none else some (lx.setCandidate none)
  | none => some lx

/-- Remember that a key may start with the next token. -/
def noteCandidate? (lx : Lexer) (at_ : Spot) : Option Lexer :=
  if lx.keyAllowed then do
    let lx ← lx.dropCandidate?
    let required := !lx.inFlow && lx.blocks.head? == some at_.column
    return lx.setCandidate (some ⟨lx.count, required, at_.line, at_.column⟩)
  else some lx

/-- Whether a candidate is out of reach at a place. -/
def isStale (c : Candidate) (here : Spot) : Bool :=
  c.line < here.line || c.column + 1024 < here.column

/-- A candidate unless it is out of reach; a required one must not be. -/
def refresh? (here : Spot) : Option Candidate → Option (Option Candidate)
  | none => some none
  | some c => if isStale c here then (if c.required then none else some none) else some (some c)

/-- Give up all candidates that are out of reach. -/
def refreshAll? (lx : Lexer) (here : Spot) : Option Lexer := do
  return { lx with outer := ← refresh? here lx.outer, flows := ← lx.flows.mapM (refresh? here) }

/-! ## Between tokens -/

/-- Skip blanks, comments and line ends. A tab is a blank inside brackets and where no
key may start. Behind a line end outside of brackets a key may start. -/
def skipToToken (flow : Bool) : (allowed comment : Bool) → Spots → Bool × Spots
  | allowed, _, [] => (allowed, [])
  | allowed, comment, s :: rest =>
    if isBreak s.char then skipToToken flow (allowed || !flow) false rest
    else if comment then skipToToken flow allowed true rest
    else if s.char = ' ' ∨ (s.char = '\t' ∧ (flow ∨ ¬allowed))
        ∨ (s.char = byteOrderMark ∧ s.column = 0) then
      skipToToken flow allowed false rest
    else if s.char = '#' then skipToToken flow allowed true rest
    else (allowed, s :: rest)

/-! ## Tokens -/

/-- A step of the lexer: the state behind a token and what follows the token. -/
abbrev Step := Option (Lexer × Spots)

/-- End all blocks before a directive or a document mark. -/
def leaveContent? (lx : Lexer) : Option Lexer := do
  return (← (lx.closeBlocks none).dropCandidate?).allowKey false

/-- An opening bracket. -/
def openFlow (lx : Lexer) (here : Spot) (t : Token) (rest : Spots) : Step := do
  let lx ← lx.noteCandidate? here
  return ({ lx.emit t with flows := none :: lx.flows, keyAllowed := true }, rest)

/-- A closing bracket. -/
def closeFlow (lx : Lexer) (t : Token) (rest : Spots) : Step := do
  let lx ← lx.dropCandidate?
  return ({ lx.emit t with flows := lx.flows.drop 1, keyAllowed := false }, rest)

/-- A comma inside brackets. -/
def flowEntry (lx : Lexer) (rest : Spots) : Step := do
  return ((← lx.dropCandidate?).allowKey true |>.emit .flowEntry, rest)

/-- The dash of a block sequence. -/
def blockEntry (lx : Lexer) (here : Spot) (rest : Spots) : Step :=
  if !lx.inFlow && !lx.keyAllowed then none
  else do
    let lx ← (lx.openBlock here.column lx.count .blockSequenceStart).dropCandidate?
    return ((lx.allowKey true).emit .blockEntry, rest)

/-- The question mark of a key. -/
def explicitKey (lx : Lexer) (here : Spot) (rest : Spots) : Step :=
  if !lx.inFlow && !lx.keyAllowed then none
  else do
    let lx ← (lx.openBlock here.column lx.count .blockMappingStart).dropCandidate?
    return ((lx.allowKey !lx.inFlow).emit .key, rest)

/-- The colon of a value: behind a candidate it makes that a key. -/
def mapValue (lx : Lexer) (here : Spot) (rest : Spots) : Step :=
  match lx.candidate with
  | some c =>
    let lx := (lx.emitAt c.position .key).openBlock c.column c.position .blockMappingStart
    some (((lx.setCandidate none).allowKey false).emit .value, rest)
  | none =>
    if !lx.inFlow && !lx.keyAllowed then none
    else
      let lx := lx.openBlock here.column lx.count .blockMappingStart
      some ((lx.allowKey !lx.inFlow).emit .value, rest)

/-- A token that belongs to a node and leaves room for no key behind it. -/
def property (lx : Lexer) (here : Spot) (read : Option (Token × Spots)) : Step := do
  let lx ← lx.noteCandidate? here
  let (t, rest) ← read
  return ((lx.allowKey false).emit t, rest)

/-- A scalar set off by indentation. -/
def blockScalar (lx : Lexer) (folded : Bool) (rest : Spots) : Step := do
  let lx ← lx.dropCandidate?
  let (text, rest) ← Block.read? folded lx.blocks.head? rest
  return ((lx.allowKey true).emit (.scalar false (String.ofList text)), rest)

/-- A scalar in quotes. -/
def quotedScalar (lx : Lexer) (here : Spot) (single : Bool) (rest : Spots) : Step :=
  lx.property here do
    let (text, rest) ← Quoted.read? single rest
    return (.scalar false (String.ofList text), rest)

/-- A scalar without quotes. A key may start behind it if its line has ended. -/
def plainScalar (lx : Lexer) (here : Spot) (s : Spots) : Step := do
  let lx ← lx.noteCandidate? here
  let indent := match lx.blocks with
    | [] => 0
    | b :: _ => b + 1
  let (text, broken, rest) ← Plain.read? lx.inFlow indent s
  return ((lx.allowKey broken).emit (.scalar true (String.ofList text)), rest)

/-- The characters that no plain scalar starts with, unless it is one of the first
three and what follows it allows it. -/
def isIndicator (c : Char) : Bool := "-?:,[]\x7b\x7d#&*!|>'\"%@`".toList.contains c

/-- Whether a plain scalar starts with this character and the ones behind it. -/
def startsPlain (inFlow : Bool) (c : Char) (rest : Spots) : Bool :=
  !(isBlank c || isIndicator c) || (c == '-' && !startsWith isBlank rest)
    || (!inFlow && (c == '?' || c == ':') && !atGap rest)

/-- Read the token that starts here. -/
def token (lx : Lexer) (s : Spot) (rest : Spots) : Step :=
  let spots := s :: rest
  if s.column = 0 ∧ s.char = '%' then do
    let lx ← lx.leaveContent?
    let (t, rest) ← directive? rest
    return (lx.emit t, rest)
  else if atTripleMark '-' spots then do
    return ((← lx.leaveContent?).emit .documentStart, spots.drop 3)
  else if atTripleMark '.' spots then do
    return ((← lx.leaveContent?).emit .documentEnd, spots.drop 3)
  else
    let marks := lx.inFlow || atGap rest
    match s.char with
    | '[' => lx.openFlow s .flowSequenceStart rest
    | '\x7b' => lx.openFlow s .flowMappingStart rest
    | ']' => lx.closeFlow .flowSequenceEnd rest
    | '\x7d' => lx.closeFlow .flowMappingEnd rest
    | ',' => lx.flowEntry rest
    | '*' => lx.property s do
      let (name, rest) ← anchorName? rest
      return (.alias name, rest)
    | '&' => lx.property s do
      let (name, rest) ← anchorName? rest
      return (.anchor name, rest)
    | '!' => lx.property s (tag? lx.inFlow spots)
    | '\'' => lx.quotedScalar s true rest
    | '"' => lx.quotedScalar s false rest
    | c =>
      if c = '-' ∧ atGap rest then lx.blockEntry s rest
      else if c = '?' ∧ marks then lx.explicitKey s rest
      else if c = ':' ∧ marks then lx.mapValue s rest
      else if (c = '|' ∨ c = '>') ∧ !lx.inFlow then lx.blockScalar (c = '>') rest
      else if startsPlain lx.inFlow c rest then lx.plainScalar s spots
      else none

/-- Read all tokens; every token takes a character, so `fuel` bounds their number. -/
def run? (lx : Lexer) : Nat → Spots → Option (List Token)
  | 0, _ => none
  | fuel + 1, s => do
    let (allowed, s) := skipToToken lx.inFlow lx.keyAllowed false s
    let lx := lx.allowKey allowed
    match s with
    | [] => return (← (lx.closeBlocks none).dropCandidate?).tokens.reverse
    | here :: rest =>
      let lx ← lx.refreshAll? here
      let (lx, s) ← (lx.closeBlocks (some here.column)).token here rest
      run? lx fuel s

end Lexer

/-- The tokens of a text, or `none` where it is no YAML. -/
def tokens? (cs : List Char) : Option (List Token) := do
  let s ← Spot.ofText? cs
  Lexer.start.run? (s.length + 1) s

end Yaml

end StageVars

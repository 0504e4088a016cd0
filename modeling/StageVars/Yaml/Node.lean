import StageVars.Yaml.Token
/-!
# StageVars.Yaml.Node -- the trees that tokens write

A node is a scalar, a sequence, a mapping or an alias; all but aliases may have an
anchor and a tag. An alias refers to another node, as written by the name of an
anchor. Tokens are read by the grammar of block and flow collections, in
which many nodes may be left out and are then empty plain scalars.
-/

namespace StageVars

namespace Yaml

/-- What may stand before the content of a node. -/
structure Properties where
  anchor : Option String
  tag : Option Octets
deriving DecidableEq, Repr, Inhabited

/-- No anchor and no tag. -/
def Properties.none : Properties := ⟨Option.none, Option.none⟩

/-- A node whose aliases are references of a type. -/
inductive Node (ρ : Type) where
  | scalar (props : Properties) (isPlain : Bool) (text : String)
  | sequence (props : Properties) (items : List (Node ρ))
  | mapping (props : Properties) (pairs : List (Node ρ × Node ρ))
  | alias (ref : ρ)
deriving Repr, Inhabited

/-- A node as it is written, its aliases being names. -/
abbrev Written := Node String

/-- The node that stands where none was written. -/
def Node.blank : Written := .scalar .none true ""

/-- What the tag handles of a document stand for. -/
abbrev Handles := List (String × Octets)

/-- The handles that every document knows. -/
def Handles.standard : Handles :=
  [("!", "!".toUTF8.toList), ("!!", "tag:yaml.org,2002:".toUTF8.toList)]

/-- A tag in full; its handle must be known. -/
def Handles.resolve? (handles : Handles) (handle : String) (suffix : Octets) : Option Octets :=
  if handle.isEmpty then some suffix
  else (handles.lookup handle).map (· ++ suffix)

namespace Node

/-- An anchor and a tag in either order, each at most once. -/
def properties? (handles : Handles) : List Token → Option (Properties × List Token)
  | .anchor a :: .tag h s :: rest => do
    return (⟨some a, some (← handles.resolve? h s)⟩, rest)
  | .tag h s :: .anchor a :: rest => do
    return (⟨some a, some (← handles.resolve? h s)⟩, rest)
  | .anchor a :: rest => some (⟨some a, Option.none⟩, rest)
  | .tag h s :: rest => do return (⟨Option.none, some (← handles.resolve? h s)⟩, rest)
  | rest => some (.none, rest)

/-- Where a node is expected. -/
inductive Place where
  /-- In a block, where a sequence may also begin without indentation. -/
  | mappingPart
  /-- In a block. -/
  | block
  /-- Inside brackets. -/
  | flow
deriving DecidableEq, Repr

mutual

/-- A node; `fuel` bounds the number of nodes and their parts. -/
def read? (handles : Handles) (place : Place) (fuel : Nat) (ts : List Token) : Option (Written × List Token) :=
  match fuel with
  | 0 => Option.none
  | fuel + 1 =>
    match ts with
    | .alias name :: rest => some (.alias name, rest)
    | ts => do
      let (props, ts) ← properties? handles ts
      match ts, place with
      | .blockEntry :: _, .mappingPart => do
        let (items, rest) ← indentless? handles fuel ts
        return (.sequence props items, rest)
      | .scalar isPlain text :: rest, _ => return (.scalar props isPlain text, rest)
      | .flowSequenceStart :: rest, _ => do
        let (items, rest) ← flowItems? handles true fuel rest
        return (.sequence props items, rest)
      | .flowMappingStart :: rest, _ => do
        let (pairs, rest) ← flowPairs? handles true fuel rest
        return (.mapping props pairs, rest)
      | .blockSequenceStart :: rest, .block | .blockSequenceStart :: rest, .mappingPart => do
        let (items, rest) ← blockItems? handles fuel rest
        return (.sequence props items, rest)
      | .blockMappingStart :: rest, .block | .blockMappingStart :: rest, .mappingPart => do
        let (pairs, rest) ← blockPairs? handles fuel rest
        return (.mapping props pairs, rest)
      | rest, _ => if props = .none then Option.none else return (.scalar props true "", rest)
termination_by structural fuel

/-- A node unless one of the given tokens comes next, which leaves it blank. -/
def readUnless? (handles : Handles) (place : Place) (stops : List Token) (fuel : Nat)
    (ts : List Token) : Option (Written × List Token) :=
  match fuel with
  | 0 => Option.none
  | fuel + 1 =>
    match ts with
    | [] => Option.none
    | t :: _ => if stops.contains t then some (blank, ts) else read? handles place fuel ts
termination_by structural fuel

/-- The items of a block sequence up to and with its end. -/
def blockItems? (handles : Handles) (fuel : Nat) (ts : List Token) : Option (List Written × List Token) :=
  match fuel with
  | 0 => Option.none
  | fuel + 1 =>
    match ts with
    | .blockEntry :: rest => do
      let (item, rest) ← readUnless? handles .block [.blockEntry, .blockEnd] fuel rest
      let (items, rest) ← blockItems? handles fuel rest
      return (item :: items, rest)
    | .blockEnd :: rest => some ([], rest)
    | _ => Option.none
termination_by structural fuel

/-- The items of a sequence that has no indentation of its own. -/
def indentless? (handles : Handles) (fuel : Nat) (ts : List Token) : Option (List Written × List Token) :=
  match fuel with
  | 0 => Option.none
  | fuel + 1 =>
    match ts with
    | .blockEntry :: rest => do
      let (item, rest) ←
        readUnless? handles .block [.blockEntry, .key, .value, .blockEnd] fuel rest
      let (items, rest) ← indentless? handles fuel rest
      return (item :: items, rest)
    | rest => some ([], rest)
termination_by structural fuel

/-- The pairs of a block mapping up to and with its end. -/
def blockPairs? (handles : Handles) (fuel : Nat) (ts : List Token) :
    Option (List (Written × Written) × List Token) :=
  match fuel with
  | 0 => Option.none
  | fuel + 1 =>
    match ts with
    | .key :: rest => do
      let (key, rest) ← readUnless? handles .mappingPart [.key, .value, .blockEnd] fuel rest
      let (value, rest) ← blockValue? handles fuel rest
      let (pairs, rest) ← blockPairs? handles fuel rest
      return ((key, value) :: pairs, rest)
    | .blockEnd :: rest => some ([], rest)
    | _ => Option.none
termination_by structural fuel

/-- The value of a pair of a block mapping; without a value token it is blank. -/
def blockValue? (handles : Handles) (fuel : Nat) (ts : List Token) : Option (Written × List Token) :=
  match fuel with
  | 0 => Option.none
  | fuel + 1 =>
    match ts with
    | .value :: rest => readUnless? handles .mappingPart [.key, .value, .blockEnd] fuel rest
    | rest => some (blank, rest)
termination_by structural fuel

/-- The items of a flow sequence up to and with its end. Behind the first item a comma
comes before each. A key makes an item a mapping of one pair. -/
def flowItems? (handles : Handles) (first : Bool) (fuel : Nat) (ts : List Token) :
    Option (List Written × List Token) :=
  match fuel with
  | 0 => Option.none
  | fuel + 1 =>
    match ts with
    | .flowSequenceEnd :: rest => some ([], rest)
    | ts => do
      let ts ← if first then some ts else match ts with
        | .flowEntry :: rest => some rest
        | _ => Option.none
      match ts with
      | .flowSequenceEnd :: rest => return ([], rest)
      | .key :: rest => do
        let (pair, rest) ← flowPair? handles fuel rest
        let (items, rest) ← flowItems? handles false fuel rest
        return (.mapping .none [pair] :: items, rest)
      | ts => do
        let (item, rest) ← read? handles .flow fuel ts
        let (items, rest) ← flowItems? handles false fuel rest
        return (item :: items, rest)
termination_by structural fuel

/-- The single pair of a mapping that is an item of a flow sequence. A token that
leaves the key out is passed over. -/
def flowPair? (handles : Handles) (fuel : Nat) (ts : List Token) : Option ((Written × Written) × List Token) :=
  match fuel with
  | 0 => Option.none
  | fuel + 1 => do
    let (key, rest) ← match ts with
      | .value :: rest | .flowEntry :: rest | .flowSequenceEnd :: rest => some (blank, rest)
      | ts => read? handles .flow fuel ts
    let (value, rest) ← match rest with
      | .value :: rest =>
        readUnless? handles .flow [.flowEntry, .flowSequenceEnd] fuel rest
      | rest => some (blank, rest)
    return ((key, value), rest)
termination_by structural fuel

/-- The pairs of a flow mapping up to and with its end. Behind the first pair a comma
comes before each. A pair without a key token has no value. -/
def flowPairs? (handles : Handles) (first : Bool) (fuel : Nat) (ts : List Token) :
    Option (List (Written × Written) × List Token) :=
  match fuel with
  | 0 => Option.none
  | fuel + 1 =>
    match ts with
    | .flowMappingEnd :: rest => some ([], rest)
    | ts => do
      let ts ← if first then some ts else match ts with
        | .flowEntry :: rest => some rest
        | _ => Option.none
      match ts with
      | .flowMappingEnd :: rest => return ([], rest)
      | .key :: rest => do
        let (key, rest) ←
          readUnless? handles .flow [.value, .flowEntry, .flowMappingEnd] fuel rest
        let (value, rest) ← match rest with
          | .value :: rest =>
            readUnless? handles .flow [.flowEntry, .flowMappingEnd] fuel rest
          | rest => some (blank, rest)
        let (pairs, rest) ← flowPairs? handles false fuel rest
        return ((key, value) :: pairs, rest)
      | ts => do
        let (key, rest) ← read? handles .flow fuel ts
        let (pairs, rest) ← flowPairs? handles false fuel rest
        return ((key, blank) :: pairs, rest)
termination_by structural fuel

end

/-! ## Documents -/

/-- The directives before a document: at most one version, of the first generation, and
each handle at most once. The standard handles may be redefined. -/
def directives? (versioned : Bool) (own : Handles) : List Token → Option (Handles × List Token)
  | .versionDirective major minor :: rest =>
    if versioned ∨ major ≠ 1 ∨ (minor ≠ 1 ∧ minor ≠ 2) then Option.none
    else directives? true own rest
  | .tagDirective handle expansion :: rest =>
    if (own.lookup handle).isSome then Option.none
    else directives? versioned (own ++ [(handle, expansion)]) rest
  | rest => some (own ++ Handles.standard, rest)

/-- Whether a document without content ends here. -/
def endsContent : List Token → Bool
  | [] => true
  | t :: _ =>
    match t with
    | .versionDirective .. | .tagDirective .. | .documentStart | .documentEnd => true
    | _ => false

/-- The only node of a list of tokens, or `none` for an empty list. Directives need a
document start behind them; nothing but end marks may follow the document. Every
function of the grammar takes a token or calls one that does, through at most two
others. -/
def ofTokens? (ts : List Token) : Option (Option Written) :=
  let fuel := 4 * ts.length + 4
  let ended (r : Written × List Token) : Option (Option Written) :=
    if r.2.all (· == .documentEnd) then some (some r.1) else Option.none
  match ts with
  | [] => some Option.none
  | t :: _ =>
    match t with
    | .versionDirective .. | .tagDirective .. | .documentStart => do
      let (handles, ts) ← directives? false [] ts
      match ts with
      | .documentStart :: rest =>
        if endsContent rest then ended (blank, rest)
        else ended (← read? handles .block fuel rest)
      | _ => Option.none
    | _ => do ended (← read? Handles.standard .block fuel ts)

end Node

end Yaml

end StageVars

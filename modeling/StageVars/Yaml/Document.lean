import StageVars.Value.Fields
import StageVars.Yaml.Schema
import StageVars.Yaml.Node
import StageVars.Yaml.Token.Lexer
/-!
# StageVars.Yaml.Document -- from nodes to values

Aliases are replaced by the nodes they refer to, so that a document becomes a tree of
values. Keys are the texts of scalars; a key that comes twice has its last value in
its first place. Nesting and the number of replacements are limited, so a small text
cannot grow without bound.
-/

namespace StageVars

namespace Yaml

/-! ## Aliases -/

/-- An alias bound to a number. Names take numbers in the order in which they first
appear; a name that is used again takes the next number, which the next new name then
shares. -/
structure Anchors where
  /-- The number of each name. -/
  numbers : List (String × Nat)
  /-- The nodes that took a number, the latest first. Nodes are counted from the start
  of the document. -/
  owners : List (Nat × Nat)
  /-- The nodes with an anchor by their count. -/
  nodes : List (Nat × Node Nat)
  /-- How many nodes with an anchor have begun. -/
  begun : Nat

namespace Anchors

/-- No anchors yet. -/
def start : Anchors := ⟨[], [], [], 0⟩

/-- A node with an anchor begins: what its count is, and the anchors from there on. -/
def enter (a : Anchors) (name : String) : Nat × Anchors :=
  let number := a.numbers.length
  let numbers := if (a.numbers.lookup name).isSome then
      a.numbers.map fun (n, k) => (n, if n = name then number else k)
    else a.numbers ++ [(name, number)]
  (a.begun, { a with
    numbers
    owners := (number, a.begun) :: a.owners
    begun := a.begun + 1 })

/-- The node with a count is complete. -/
def leave (a : Anchors) (count : Nat) (node : Node Nat) : Anchors :=
  { a with nodes := (count, node) :: a.nodes }

/-- The node that a number refers to when the document has ended: the last one that
took the number. -/
def target? (a : Anchors) (number : Nat) : Option (Node Nat) := do
  a.nodes.lookup (← a.owners.lookup number)

end Anchors

namespace Node

/-- Begin a node with its anchor, if it has one. -/
def enter (props : Properties) (a : Anchors) : Option Nat × Anchors :=
  match props.anchor with
  | none => (none, a)
  | some name => let (count, a) := a.enter name; (some count, a)

/-- Complete a node. -/
def leave (count : Option Nat) (node : Node Nat) (a : Anchors) : Node Nat × Anchors :=
  match count with
  | none => (node, a)
  | some count => (node, a.leave count node)

mutual

/-- Replace the names of aliases by numbers; a name must have been an anchor before. -/
def link? (a : Anchors) (node : Written) : Option (Node Nat × Anchors) :=
  match node with
  | .alias name => do return (.alias (← a.numbers.lookup name), a)
  | .scalar props isPlain text =>
    let (count, a) := enter props a
    some (leave count (.scalar props isPlain text) a)
  | .sequence props items => do
    let (count, a) := enter props a
    let (items, a) ← linkItems? a items
    return leave count (.sequence props items) a
  | .mapping props pairs => do
    let (count, a) := enter props a
    let (pairs, a) ← linkPairs? a pairs
    return leave count (.mapping props pairs) a
termination_by structural node

/-- Link the items of a sequence in order. -/
def linkItems? (a : Anchors) (items : List Written) : Option (List (Node Nat) × Anchors) :=
  match items with
  | [] => some ([], a)
  | item :: rest => do
    let (item, a) ← link? a item
    let (rest, a) ← linkItems? a rest
    return (item :: rest, a)
termination_by structural items

/-- Link the keys and values of a mapping in order. -/
def linkPairs? (a : Anchors) (pairs : List (Written × Written)) :
    Option (List (Node Nat × Node Nat) × Anchors) :=
  match pairs with
  | [] => some ([], a)
  | (key, value) :: rest => do
    let (key, a) ← link? a key
    let (value, a) ← link? a value
    let (rest, a) ← linkPairs? a rest
    return ((key, value) :: rest, a)
termination_by structural pairs

end

mutual

/-- The size of a document: one for each scalar and alias, two for each collection. -/
def size {ρ : Type} (node : Node ρ) : Nat :=
  match node with
  | .scalar .. | .alias _ => 1
  | .sequence _ items => 2 + sizeItems items
  | .mapping _ pairs => 2 + sizePairs pairs
termination_by structural node

/-- The size of the items of a sequence. -/
def sizeItems {ρ : Type} (items : List (Node ρ)) : Nat :=
  match items with
  | [] => 0
  | item :: rest => item.size + sizeItems rest
termination_by structural items

/-- The size of the pairs of a mapping. -/
def sizePairs {ρ : Type} (pairs : List (Node ρ × Node ρ)) : Nat :=
  match pairs with
  | [] => 0
  | (key, value) :: rest => key.size + value.size + sizePairs rest
termination_by structural pairs

end

end Node

/-! ## Values -/

/-- Whether a tag names a type that only an application knows: it begins with an
exclamation mark, and its octets are text. -/
def isCustomTag (tag : Option Octets) : Bool :=
  match tag with
  | some (first :: rest) =>
    let name := if rest.isEmpty then [first] else rest
    first == '!'.toUInt8 && (String.fromUTF8? (ByteArray.mk name.toArray)).isSome
  | _ => false

/-- The octets of a tag of the standard repository. -/
def standardTag (name : String) : Octets := ("tag:yaml.org,2002:" ++ name).toUTF8.toList

/-- The value of a plain scalar without tag. Numbers that are not finite become null. -/
def Meaning.value? (text : String) : Meaning → Option Value
  | .null => some .null
  | .bool b => some (.bool b)
  | .integer n => some (.number (.integer n))
  | .wideInteger => none
  | .float (some x) => some (.number (.float x))
  | .float none => some .null
  | .text => some (.string text)

/-- The value of a scalar. The tags of the basic types demand a text of that type;
without a tag only plain scalars can be anything but strings. -/
def scalarValue? (tag : Option Octets) (isPlain : Bool) (text : String) : Option Value :=
  let plain := (Schema.meaning text).value? text
  match tag with
  | none => if isPlain then plain else some (.string text)
  | some t =>
    if t = standardTag "bool" then (Schema.bool? text).map .bool
    else if t = standardTag "int" then (Schema.integerMeaning? text).bind (·.value? text)
    else if t = standardTag "float" then
      (Schema.float? text).bind fun x => (Meaning.float x).value? text
    else if t = standardTag "null" then if Schema.isNull text then some .null else none
    else if t.head? = some '!'.toUInt8 ∧ isPlain then plain
    else some (.string text)

/-- What the replacement of aliases needs to know. -/
structure Expansion where
  anchors : Anchors
  /-- How many aliases may be replaced. -/
  limit : Nat

/-- A reading that counts the aliases replaced so far. -/
abbrev Counted (α : Type) := StateT Nat Option α

namespace Expansion

/-- The node that a node stands for: an alias for its target, any other for itself. -/
def follow (x : Expansion) : Node Nat → Counted (Node Nat)
  | .alias number => do
    let used ← get
    if used ≥ x.limit then failure
    set (used + 1)
    StateT.lift (x.anchors.target? number)
  | node => pure node

/-- The text of a key. Only scalars are keys; their tags and quotes do not matter. -/
def key (x : Expansion) (node : Node Nat) : Counted String := do
  match ← x.follow node with
  | .scalar _ _ text => pure text
  | _ => failure

/-- The value of a node in which at most `depth` collections nest. -/
def value (x : Expansion) : Nat → Node Nat → Counted Value
  | depth, node => do
    match ← x.follow node with
    | .scalar props isPlain text =>
      if isCustomTag props.tag then failure
      StateT.lift (scalarValue? props.tag isPlain text)
    | .sequence props items =>
      if isCustomTag props.tag then failure
      match depth with
      | 0 => failure
      | depth + 1 => return .array (← items.mapM (x.value depth))
    | .mapping props pairs =>
      if isCustomTag props.tag then failure
      match depth with
      | 0 => failure
      | depth + 1 =>
        let entries ← pairs.mapM fun (k, v) => return (← x.key k, ← x.value depth v)
        return .object (Fields.ofEntries entries)
    | .alias _ => failure

end Expansion

/-- At most this many collections nest in a document. -/
def maxDepth : Nat := 128

/-- This many aliases are replaced for each unit of a document's size. -/
def aliasesPerUnit : Nat := 100

/-- The value of a written node. -/
def Node.value? (node : Written) : Option Value := do
  let (node, anchors) ← node.link? .start
  let x : Expansion := ⟨anchors, node.size * aliasesPerUnit⟩
  let (v, _) ← (x.value maxDepth node).run 0
  return v

/-- The value of a text that holds one document; without any content it is null. -/
def decode? (text : String) : Option Value := do
  match ← Node.ofTokens? (← tokens? text.toList) with
  | none => return .null
  | some node => node.value?

end Yaml

end StageVars

import StageVars.Value.Fields
/-!
# StageVars.Merge -- combining variable sources

Sources are combined from left to right and later ones win. The deep strategy lets
two objects under one key grow together and replaces everything else wholesale; the
shallow strategy replaces every value and spreads an array into entries under its
indices. A merge is always an object.
-/

namespace StageVars

namespace Merge

/-! ## Deep -/

mutual

/-- Lay the entries of `source` over `target`, one after the other. -/
def deepFields (target source : Fields) : Fields :=
  match source with
  | [] => target
  | (key, value) :: rest =>
    deepFields (Fields.insert target key (deepOver (Fields.get? target key) value)) rest
termination_by structural source

/-- What a key holds after `value` was laid over what it held before. -/
def deepOver (before : Option Value) (value : Value) : Value :=
  match value with
  | .object incoming =>
    match before with
    | some (.object existing) => .object (deepFields existing incoming)
    | _ => .object incoming
  | other => other
termination_by structural value

end

/-- Two objects grow together; anything else gives way to `overlay`. -/
def deep (base overlay : Value) : Value := deepOver (some base) overlay

/-! ## Shallow -/

/-- Every entry of `source` replaces that of `target`. -/
def shallow (target source : Fields) : Fields := Fields.insertAll target source

/-- The entries `"0"`, `"1"`, ... of an array. -/
def byIndex (items : List Value) : Fields :=
  items.zipIdx.map fun (item, index) => (Nat.repr index, item)

/-! ## Lists of sources -/

/-- How sources are combined. -/
inductive Strategy where
  | deep
  | shallow
deriving DecidableEq, Repr

/-- The object so far after one more source. A source that is absent or neither an
object nor, for the shallow strategy, an array contributes nothing. -/
def Strategy.step (strategy : Strategy) (merged : Fields) : Option Value → Fields
  | some (.object fields) =>
    match strategy with
    | .deep => deepFields merged fields
    | .shallow => Merge.shallow merged fields
  | some (.array items) =>
    match strategy with
    | .deep => merged
    | .shallow => Merge.shallow merged (byIndex items)
  | _ => merged

/-- The merge of a list of sources. -/
def Strategy.merge (strategy : Strategy) (sources : List (Option Value)) : Value :=
  .object (sources.foldl strategy.step [])

end Merge

end StageVars

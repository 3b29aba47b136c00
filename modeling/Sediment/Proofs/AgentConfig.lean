import Sediment.Base.Results
import Sediment.Proofs.AgentInstall

namespace Sediment.Proofs.AgentConfig
open Sediment.Base Sediment.Cli.AgentConfig AgentInstall

variable {φ : Type}

section
variable [CaseFolding]

/-- The fields of a block besides its hooks. -/
def otherKeys (block : Value φ) : Fields φ :=
  match block with
  | .obj fields => dropField hooksKey fields
  | _ => []

/-- Where all entries are ours, the block has no other key. -/
def Bare (block : Value φ) : Prop :=
  ∀ fields items, block = .obj fields → getField hooksKey fields = some (.arr items) → items ≠ [] →
    (∀ item ∈ items, isOurItem item) → dropField hooksKey fields = []

/-- The block with null for each entry of ours. -/
def blankBlock (block : Value φ) : Value φ :=
  match block with
  | .obj fields =>
    match getField hooksKey fields with
    | some (.arr items) =>
      .obj (setField hooksKey
        (.arr (items.map fun item => if isOurItem item then .null else item)) fields)
    | _ => block
  | _ => block

/-- What stays of some blocks: nothing of ours, all entries that are foreign, and the other keys,
unless a block of nothing but entries of ours has some. -/
structure Kept (blocks : List (Value φ)) (changed : Bool) (left : List (Value φ)) : Prop where
  cleared : ∀ hook ∈ left.flatMap hooksOf, ¬isOurHook hook
  foreign : left.flatMap foreignEntries = blocks.flatMap foreignEntries
  unchanged : changed = false → left = blocks
  quiet : (∀ hook ∈ blocks.flatMap hooksOf, ¬isOurHook hook) → changed = false
  keys : (left.flatMap otherKeys).Sublist (blocks.flatMap otherKeys)
  bare : left.flatMap otherKeys = blocks.flatMap otherKeys ↔ ∀ b ∈ blocks, Bare b
  deep : (∀ b ∈ blocks, Bare b) → ∀ n, 2 ≤ n →
    ((∀ b ∈ left, b.nesting ≤ n) ↔ ∀ b ∈ blocks, (blankBlock b).nesting ≤ n)

section
variable {hooks : Fields φ} {results : List (Bool × (List Char × Value φ))}

end

variable [JsonDepth]

end

instance asciiCase : CaseFolding where
  sameLetter c d := c.toLower == d.toLower

@[reducible] def thousandDeep : JsonDepth := ⟨1000, 900, by decide, by decide⟩

end Sediment.Proofs.AgentConfig

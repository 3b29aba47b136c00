import Sediment.Cli.AgentConfig
import Mathlib.Tactic

namespace Sediment.Proofs.AgentInstall
open Sediment.Base Sediment.Cli.AgentConfig

variable {φ : Type}

/-- A block whose hooks can be run over: they are missing, a list, a text or an object. -/
def Readable (block : Value φ) : Prop :=
  match block with
  | .obj fields =>
    match getField hooksKey fields with
    | none | some (.arr _) | some (.str _) | some (.obj _) => True
    | some _ => False
  | _ => True

/-- The hook entries of a block. -/
def hooksOf (block : Value φ) : List (Fields φ) :=
  match block with
  | .obj fields => ((hooksIn fields).getD []).filterMap asObject
  | _ => []

section
variable [CaseFolding]

/-- What a block holds besides our entries, each foreign entry with the other keys of its block. -/
def foreignEntries (block : Value φ) : List (Value φ) :=
  match block with
  | .obj fields =>
    match getField hooksKey fields with
    | some (.arr (item :: items)) =>
      ((item :: items).filter (fun item => !isOurItem item)).map
        (fun item => .obj (setField hooksKey (.arr [item]) fields))
    | _ => [block]
  | _ => [block]

variable {command : List Char}

variable {block : HookBlock}

section
variable [JsonDepth] {file : ConfigFile φ} {event : List Char} {config hooks : Fields φ}
  {blocks : List (Value φ)}

/-- The blocks of an event, in a file that has them where the installer looks. -/
structure Shaped (file : ConfigFile φ) (event : List Char) (config hooks : Fields φ)
    (blocks : List (Value φ)) : Prop where
  load : loadJson file = some (some config)
  config_hooks : (getField hooksKey config).getD (.obj []) = .obj hooks
  event_blocks : (getField event hooks).getD (.arr []) = .arr blocks

/-- The JSON library follows the file to its leaves. -/
def Followed (file : ConfigFile φ) : Prop :=
  ∀ value, file = .document value → value.nesting ≤ JsonDepth.loads

end

end

end Sediment.Proofs.AgentInstall

import Sediment.Base.JsonLoads
import Sediment.Core.Captured

namespace Sediment.Capture
open Sediment.Base Base.JsonScan

abbrev Payload (φ : Type) := Json Text φ

abbrev Fields (φ : Type) := List (Text × Payload φ)

/-- `json.loads` on a string of the payload, which may hold lone surrogates. -/
class JsonDecoder (φ : Type) where
  loads : Text → Loads (Json Text φ)

/-- How many containers inside each other `str` follows before it raises `RecursionError`. -/
class StrDepth where
  depth : Nat

section
variable {φ : Type}

/-- `d.get(key, default)`. -/
def fieldOr (d : Fields φ) (key : String) (default : Payload φ) : Payload φ :=
  match d.find? (·.1 == codePoints key) with
  | some (_, v) => v
  | none => default

def field (d : Fields φ) (key : String) : Payload φ := fieldOr d key .null

def asList : Payload φ → List (Payload φ)
  | .arr items => items
  | _ => []

def asObject : Payload φ → Option (Fields φ)
  | .obj fields => some fields
  | _ => none

def asDict : Payload φ → Fields φ
  | .obj fields => fields
  | _ => []

def asText : Payload φ → Option Text
  | .str s => some s
  | _ => none

/-- Whether a text is one of the program's literals. -/
def oneOfTexts (s : Text) (names : List String) : Bool := names.any (fun name => s == codePoints name)

/-- Whether a string of the payload is the given one. -/
def isText (value : Payload φ) (s : String) : Bool := asText value == some (codePoints s)

def oneOf (value : Payload φ) (names : List String) : Bool := names.any (isText value)

variable (φ) in
/-- `json.loads` raises `RecursionError` on the text. -/
def TooDeep [JsonDecoder φ] (s : Text) : Prop :=
  JsonDecoder.loads (φ := φ) s = .error .recursionError

end

end Sediment.Capture

import Sediment.Base.JsonDumps
import Sediment.Core.Datetime
import Sediment.Core.Inference

namespace Sediment.Core.Captured
open Sediment.Base Base.JsonScan

/-- The least magnitude that does not round to a finite double. -/
def floatRange : Int := 2 ^ 1024 - 2 ^ 970

/-- Python's floats, with what the program does with them. An integer too large for a float
raises `OverflowError`, which `none` stands for. -/
class PyFloat (φ : Type) where
  ofInt : Int → Option φ
  sub : φ → φ → φ
  mul : φ → φ → φ
  isfinite : φ → Bool
  trunc : φ → Int
  repr : φ → List Char
  overflow : ∀ n, ofInt n = none ↔ floatRange ≤ |n|

def strip (t : Text) : Text := Lines.trim isSpaceCode t

def isSurrogate (n : Nat) : Bool := 0xD800 ≤ n && n ≤ 0xDFFF

/-- `none` stands for the `ValueError` that the validator raises. -/
def scalarIdentity (value : Text) : Option Text :=
  if 0 ∈ value ∨ value.any isSurrogate then none else some value

def nonEmptyId (v : Text) : Option Text := do
  let v ← scalarIdentity v
  let v := strip v
  if v = [] then none else some v

def modelName (v : Text) : Option Text := do
  let v ← scalarIdentity v
  let v := strip v
  if v = [] then none else some v

def int64Max : Int := 2 ^ 63 - 1

/-- `Field(ge=0, le=2**63 - 1)`. -/
def boundedCount (n : Int) : Option Int := if 0 ≤ n ∧ n ≤ int64Max then some n else none

section
variable (φ : Type)

inductive MessagePart where
  | text (content : Text)
  | reasoning (content : Text)
  | toolCall (id name : Text) (arguments : List (Text × Json Text φ))
  | toolCallResponse (id : Text) (result : Json Text φ)

structure InferenceMessage where
  role : Text
  parts : List (MessagePart φ)
  finishReason : Option Text

structure InferenceCall where
  inferenceCallId : Text
  orgId : Text
  sessionId : Text
  userId : Option Text
  gatewayProvider : GatewayProvider
  modelProvider : Option Text
  model : Option Text
  inputMessages : List (InferenceMessage φ)
  outputMessages : List (InferenceMessage φ)
  inputTokens : Option Int
  outputTokens : Option Int
  durationMs : Option Int
  modelCallId : Option Text
  observedAt : Datetime
  raw : List (Text × Json Text φ)

end

variable {φ : Type}

/-- A present value must pass the validator. -/
def optional {α β : Type} (validate : α → Option β) : Option α → Option (Option β)
  | none => some none
  | some a => (validate a).map some

/-- The model's validators over the given fields; `none` stands for its `ValidationError`. -/
def InferenceCall.validate (call : InferenceCall φ) : Option (InferenceCall φ) := do
  let inferenceCallId ← nonEmptyId call.inferenceCallId
  let sessionId ← nonEmptyId call.sessionId
  let userId ← optional nonEmptyId call.userId
  let modelProvider ← optional scalarIdentity call.modelProvider
  let model ← optional modelName call.model
  let inputTokens ← optional boundedCount call.inputTokens
  let outputTokens ← optional boundedCount call.outputTokens
  let durationMs ← optional boundedCount call.durationMs
  let modelCallId ← optional nonEmptyId call.modelCallId
  some { call with inferenceCallId, sessionId, userId, modelProvider, model, inputTokens,
                   outputTokens, durationMs, modelCallId }

end Sediment.Core.Captured

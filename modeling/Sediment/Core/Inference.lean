import Sediment.Base.Ordering
import Sediment.Core.Evidence

namespace Sediment.Core
open Sediment.Base

inductive GatewayProvider where
  | litellm | portkey | helicone | unknown
  deriving DecidableEq, Repr

/-- One ordered message in an inference request or response. -/
structure InferenceMessage where
  role : String
  parts : List MessagePart
  finishReason : Option String

structure InferenceCall where
  inferenceCallId : String
  orgId : String
  sessionId : String
  gatewayProvider : GatewayProvider
  inputMessages : List InferenceMessage
  outputMessages : List InferenceMessage
  modelCallId : Option String
  observedAt : AwareDatetime

/-- Call identity and distinct provider and tool aliases, without message bodies. -/
structure InferenceCallIdentity where
  inferenceCallId : String
  orgId : String
  sessionId : String
  observedAt : AwareDatetime
  callIds : List String
  deriving DecidableEq

structure ToolCallPart where
  id : String
  name : String
  arguments : List (String × Value)

def MessagePart.asToolCall : MessagePart → Option ToolCallPart
  | .toolCall id name arguments => some ⟨id, name, arguments⟩
  | _ => none

/-- `inference_tool_calls`: the calls of the response, without echoes of the request. -/
def InferenceCall.toolCalls (call : InferenceCall) : List ToolCallPart :=
  call.outputMessages.flatMap (fun message => message.parts.filterMap MessagePart.asToolCall)

/-- `model_call_ids` of a call. -/
def InferenceCall.modelCallIds (call : InferenceCall) : Finset String :=
  (call.toolCalls.map ToolCallPart.id).toFinset ∪ call.modelCallId.toFinset

def InferenceCall.identity (call : InferenceCall) : InferenceCallIdentity where
  inferenceCallId := call.inferenceCallId
  orgId := call.orgId
  sessionId := call.sessionId
  observedAt := call.observedAt
  callIds := sortedSet call.modelCallIds

def InferenceCallIdentity.modelCallIds (identity : InferenceCallIdentity) : List String :=
  identity.callIds.dedup

end Sediment.Core

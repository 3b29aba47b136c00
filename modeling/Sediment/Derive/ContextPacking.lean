import Sediment.Core.EvidenceJson
import Sediment.Derive.ContextRetrieval

namespace Sediment.Derive.ContextPacking
open Sediment.Base Sediment.Base.JsonScan Sediment.Core Sediment.Core.EvidenceJson

section
variable {ι ε : Type} (encode : ι → Int → Except ε (List Char)) (isLimit : ε → Bool)

/-- One round of the packing loop, over the encoder of the item's contract. -/
def packStepBy (s : Packed ι) (candidate : ι) : Except ε (Packed ι) :=
  if s.selected.length = contextItemLimit then .ok { s with limited := s.limited + 1 }
  else
    let commaBytes : Int := if s.selected = [] then 0 else 1
    match encode candidate (s.remaining - commaBytes) with
    | .ok encoded => .ok { s with
        remaining := s.remaining - (encoded.length + commaBytes)
        selected := s.selected ++ [candidate] }
    | .error e => if isLimit e then .ok { s with oversized := s.oversized + 1 } else .error e

def packCandidatesBy (candidates : List ι) (maxBytes : Int) : Except ε (Packed ι) :=
  candidates.foldlM (packStepBy encode isLimit) { remaining := maxBytes - contextEnvelopeBytes }

end

def EncodeError.isLimit : EncodeError → Bool
  | .read (.evidenceResponseLimit _) => true
  | _ => false

section
variable {ι δ : Type} (dump : δ → Text) (payload : ι → Payload δ)

def encodeItem (candidate : ι) (maxBytes : Int) : Except EncodeError (List Char) :=
  encodeEvidenceJson dump (payload candidate) (some maxBytes)

/-- `_pack_candidates` over what the candidates' contract dumps. -/
def packPayloads (candidates : List ι) (maxBytes : Int) : Except EncodeError (Packed ι) :=
  packCandidatesBy (encodeItem dump payload) EncodeError.isLimit candidates maxBytes

/-- The fields of a result, with its items last. -/
def resultPayload (envelope : List (ObjectKey × Payload δ)) (items : List ι) : Payload δ :=
  .obj (envelope ++ [(.str (codePoints "items"), .arr (items.map payload))])

/-- The packing and the two encodings that a result passes before it is returned. -/
def packedResult (envelope : Packed ι → List (ObjectKey × Payload δ)) (ranked : List ι)
    (maxBytes : Int) : Except EncodeError (Packed ι × List Char) := do
  let packed ← packPayloads dump payload ranked maxBytes
  let _ ← encodeEvidenceJson dump (resultPayload payload (envelope packed) [])
    (some contextEnvelopeBytes)
  let encoded ← encodeEvidenceJson dump (resultPayload payload (envelope packed) packed.selected)
    (some maxBytes)
  pure (packed, encoded)

end

end Sediment.Derive.ContextPacking

import Sediment.Base.JsonIterencode
import Sediment.Core.Evidence

namespace Sediment.Core.EvidenceJson
open Sediment.Base Sediment.Base.JsonScan

/-- What `json.dumps` writes on its own: no string, no container. -/
inductive Bare where
  | null
  | bool (b : Bool)
  | int (n : Int)
  | finite (x : FloatText)
  | nonFinite

/-- A key of a serialized object. -/
inductive ObjectKey where
  | str (t : Text)
  | bare (s : Bare)
  | other

/-- What a contract dumps in Python mode. -/
inductive Payload (δ : Type) where
  | str (t : Text)
  | arr (items : List (Payload δ))
  | obj (fields : List (ObjectKey × Payload δ))
  | datetime (d : δ)
  | bare (s : Bare)
  | other

inductive EncodeError where
  | read (e : EvidenceReadError)
  /-- `TypeError`: a value or a key of a foreign type. -/
  | unsupported
  deriving DecidableEq

/-- `json.dumps(value, allow_nan=False)`; `none` stands for `ValueError`. -/
def Bare.dumps : Bare → Option (List Char)
  | .null => some "null".toList
  | .bool true => some "true".toList
  | .bool false => some "false".toList
  | .int n => some (toString n).toList
  | .finite x => some x.text
  | .nonFinite => none

def Bare.isFinite : Bare → Bool
  | .nonFinite => false
  | _ => true

def ObjectKey.isFinite : ObjectKey → Bool
  | .bare s => s.isFinite
  | _ => true

def sliceWidth : Nat := 1024

/-- `value[offset : offset + 1024]` for every offset of `range(0, len(value), 1024)`. -/
def slices (t : Text) : List Text :=
  (List.range ((t.length + (sliceWidth - 1)) / sliceWidth)).map
    (fun i => (t.drop (i * sliceWidth)).take sliceWidth)

/-- The text of a key; `none` stands for the errors that a key raises. -/
def ObjectKey.text : ObjectKey → Option Text
  | .str t => some t
  | .bare s => s.dumps.map (fun text => text.map Char.toNat)
  | .other => none

/-- A string is split before it is escaped, and every slice loses its quotes. -/
def textChunks (t : Text) : Yields :=
  ⟨['"'] :: (slices t).map (fun slice => (quoteText slice).tail.dropLast) ++ [['"']], false⟩

section
variable {δ : Type} (dump : δ → Text)

/-- No float of the value is infinite or no number, in a key or elsewhere. -/
def validNumbers : Payload δ → Bool
  | .bare s => s.isFinite
  | .arr items => validItems items
  | .obj fields => validFields fields
  | _ => true
where
  validItems : List (Payload δ) → Bool
    | [] => true
    | item :: rest => validNumbers item && validItems rest
  validFields : List (ObjectKey × Payload δ) → Bool
    | [] => true
    | (key, item) :: rest => key.isFinite && validNumbers item && validFields rest

/-- The separator that every element but the first has before it. -/
def comma (first : Bool) : Yields := if first then ⟨[], false⟩ else .one [',']

/-- `_json_chunks` -/
def jsonChunks : Payload δ → Yields
  | .str t => textChunks t
  | .arr items => ((Yields.one ['[']).andThen (itemChunks true items)).andThen (.one [']'])
  | .obj fields =>
    ((Yields.one ['\x7b']).andThen (fieldChunks true fields)).andThen (.one ['\x7d'])
  | .datetime d => textChunks (dump d)
  | .bare s => (s.dumps.map Yields.one).getD .raise
  | .other => .raise
where
  itemChunks (first : Bool) : List (Payload δ) → Yields
    | [] => ⟨[], false⟩
    | item :: rest => ((comma first).andThen (jsonChunks item)).andThen (itemChunks false rest)
  fieldChunks (first : Bool) : List (ObjectKey × Payload δ) → Yields
    | [] => ⟨[], false⟩
    | (key, item) :: rest =>
      ((((comma first).andThen ((key.text.map textChunks).getD .raise)).andThen
        (.one [':'])).andThen (jsonChunks item)).andThen (fieldChunks false rest)

def exceeds (maxBytes : Option Int) (size : Nat) : Bool :=
  match maxBytes with
  | none => false
  | some limit => limit < size

/-- The loop over the chunks, with the bytes kept so far. -/
def bounded (maxBytes : Option Int) : List (List Char) → List Char →
    Except EncodeError (List Char)
  | [], kept => .ok kept
  | chunk :: rest, kept =>
    if exceeds maxBytes (kept.length + chunk.length) then
      .error (.read (.evidenceResponseLimit (maxBytes.getD 0)))
    else bounded maxBytes rest (kept ++ chunk)

/-- `encode_evidence_json` of what the contract dumps. -/
def encodeEvidenceJson (payload : Payload δ) (maxBytes : Option Int) :
    Except EncodeError (List Char) := do
  if validNumbers payload then pure () else throw (.read .nonFiniteNumber)
  let chunks := jsonChunks dump payload
  let encoded ← bounded maxBytes chunks.chunks []
  if chunks.raised then throw .unsupported
  pure encoded

end

end Sediment.Core.EvidenceJson

import Sediment.Base.JsonIterencode
import Sediment.Export.Rlvr

namespace Sediment.Export.Jsonl
open Sediment.Base Sediment.Base.JsonScan

/-- One projected row plus the split side it belongs on. -/
structure ExportRow where
  split : Split
  body : Body

structure FilePath where
  parent : String
  stem : String
  suffix : String
  deriving DecidableEq, Repr

/-- `_split_path`: the side comes before the final suffix. -/
def splitPath (base : FilePath) (side : Split) : FilePath :=
  { base with stem := base.stem ++ "." ++ side.value }

inductive WriteError where
  | limitExceeded | serialization | rowSource
  deriving DecidableEq, Repr

/-- The files, the temporary ones under the destination they are prepared for: `mkstemp` gives
each a name that no file has. `prepared` counts the rows of each. -/
structure WriteState where
  destinations : FilePath → Option (List Char)
  temporaries : Dict FilePath (List Char) := Dict.empty
  prepared : Dict FilePath Nat := Dict.empty
  encodedBytes : Nat := 0

structure WriteResult where
  written : Dict FilePath Nat := Dict.empty
  skippedEmpty : List FilePath := []

section
variable (maxBytes : Option Nat) (path : FilePath)

/-- `write_chunk`. Every emitted character is one byte. -/
def writeChunk (s : WriteState) (chunk : List Char) : WriteState × Option WriteError :=
  if maxBytes.any (· < s.encodedBytes + chunk.length) then (s, some .limitExceeded)
  else ({ s with
    temporaries := s.temporaries.alter path (fun content => content.getD [] ++ chunk)
    encodedBytes := s.encodedBytes + chunk.length }, none)

def writeChunks : WriteState → List (List Char) → WriteState × Option WriteError
  | s, [] => (s, none)
  | s, chunk :: rest =>
    match writeChunk maxBytes path s chunk with
    | (s, none) => writeChunks s rest
    | (s, some e) => (s, some e)

/-- One row into a prepared file. -/
def encodeRow (s : WriteState) (body : Body) : WriteState × Option WriteError :=
  match writeChunks maxBytes path s (iterencode body).chunks with
  | (s, some e) => (s, some e)
  | (s, none) =>
    if (iterencode body).raised then (s, some .serialization)
    else
      match writeChunk maxBytes path s ['\n'] with
      | (s, some e) => (s, some e)
      | (s, none) => ({ s with prepared := s.prepared.alter path (fun n => n.getD 0 + 1) }, none)

/-- The temporary file of a destination, made before its first row. -/
def prepare (s : WriteState) : WriteState :=
  if s.prepared.contains path then s
  else { s with
    temporaries := s.temporaries.set path []
    prepared := s.prepared.set path 0 }

end

section
variable (base : FilePath) (splitEnabled : Bool) (maxBytes : Option Nat)

def targets : List FilePath :=
  if splitEnabled then [splitPath base .train, splitPath base .eval] else [base]

def pathOf (row : ExportRow) : FilePath := if splitEnabled then splitPath base row.split else base

def writeRow (s : WriteState) (row : ExportRow) : WriteState × Option WriteError :=
  let path := pathOf base splitEnabled row
  if path ∉ targets base splitEnabled then (s, none)
  else encodeRow maxBytes path (prepare path s) row.body

def writeRows : WriteState → List ExportRow → WriteState × Option WriteError
  | s, [] => (s, none)
  | s, row :: rest =>
    match writeRow base splitEnabled maxBytes s row with
    | (s, none) => writeRows s rest
    | (s, some e) => (s, some e)

/-- `os.replace` of each prepared file, in the order of the targets. -/
def publish : WriteState × WriteResult → FilePath → WriteState × WriteResult
  | (s, result), path =>
    match s.prepared.get? path with
    | none => (s, { result with skippedEmpty := result.skippedEmpty ++ [path] })
    | some count =>
      ({ s with
        destinations := Function.update s.destinations path (s.temporaries.get? path)
        temporaries := s.temporaries.filter (fun key _ => key ≠ path) },
        { result with written := result.written.set path count })

/-- The `finally` clause: every prepared file that is still there is removed. -/
def cleanup (s : WriteState) : WriteState :=
  { s with temporaries := s.temporaries.filter (fun key _ => !s.prepared.contains key) }

/-- The rows come from a source that may raise once it has given these. -/
def writeJsonl (destinations : FilePath → Option (List Char)) (rows : List ExportRow)
    (sourceRaises : Bool) : WriteState × Except WriteError WriteResult :=
  match writeRows base splitEnabled maxBytes { destinations } rows with
  | (s, some e) => (cleanup s, .error e)
  | (s, none) =>
    if sourceRaises then (cleanup s, .error .rowSource)
    else
      let (s, result) := (targets base splitEnabled).foldl publish (s, {})
      (cleanup s, .ok result)

end

end Sediment.Export.Jsonl

import Sediment.Base.Dict

namespace Sediment.Export
open Sediment.Base

abbrev Bytes := List UInt8

/-- A running `hashlib` object: it depends on the bytes fed to it, in whatever pieces. -/
structure Digest where
  fed : Bytes := []
  deriving DecidableEq

def Digest.update (d : Digest) (data : Bytes) : Digest := ⟨d.fed ++ data⟩

structure RecordLimits where
  maxRecordBytes : Nat
  maxStagingBytes : Nat
  deriving DecidableEq

/-- One member: its file, while it is there, and the offset and size of each record in it. -/
structure FileRecords where
  file : Option Bytes := some []
  offsets : List (Nat × Nat) := []
  digest : Digest := {}
  bytes : Nat := 0
  isSealed : Bool := false
  deriving DecidableEq

structure RecordStore where
  limits : RecordLimits
  records : Dict String FileRecords := Dict.empty
  bytes : Nat := 0
  closed : Bool := false

inductive RecordError where
  | capacity | encoder | write | invalidName | closed | isSealed
  deriving DecidableEq, Repr

/-- A chunk of the encoder, and whether the file takes it. -/
structure Chunk where
  data : Bytes
  written : Bool
  deriving DecidableEq

/-- What one call meets: the chunks its encoder yields and whether it then comes to its end;
whether closing the file writes out what is buffered; and, where the call fails, how many of
the bytes handed over have reached the file by then. -/
structure Attempt where
  chunks : List Chunk
  encoded : Bool
  flushed : Bool
  landed : Nat

/-- What the chunks of a call have changed so far. -/
structure Progress where
  storeBytes : Nat
  bytes : Nat
  digest : Digest
  pending : Bytes

section
variable (limits : RecordLimits) (start : Nat)

def appendChunks : Progress → List Chunk → Progress × Option RecordError
  | p, [] => (p, none)
  | p, chunk :: rest =>
    if limits.maxRecordBytes < p.bytes - start + chunk.data.length then (p, some .capacity)
    else if limits.maxStagingBytes < p.storeBytes + chunk.data.length then (p, some .capacity)
    else
      let p := { p with
        storeBytes := p.storeBytes + chunk.data.length
        bytes := p.bytes + chunk.data.length
        pending := p.pending ++ chunk.data }
      if chunk.written then appendChunks { p with digest := p.digest.update chunk.data } rest
      else (p, some .write)

end

/-- `append` once its checks have passed. A failure truncates the file to where it began and
gives back what was reserved. -/
def appendRecord (limits : RecordLimits) (storeBytes : Nat) (m : FileRecords) (a : Attempt) :
    Nat × FileRecords × Option RecordError :=
  let start := m.bytes
  let (p, raised) := appendChunks limits start ⟨storeBytes, start, m.digest, []⟩ a.chunks
  let raised := raised.or (if a.encoded then none else some .encoder)
  let raised := raised.or (if a.flushed then none else some .write)
  match raised with
  | none =>
    (p.storeBytes, { m with
      file := m.file.map (· ++ p.pending)
      offsets := m.offsets ++ [(start, p.bytes - start)]
      bytes := p.bytes
      digest := p.digest }, none)
  | some e =>
    (p.storeBytes - (p.bytes - start), { m with
      file := m.file.map (fun data => (data ++ p.pending.take a.landed).take start)
      bytes := start
      digest := m.digest }, some e)

namespace RecordStore

/-- The pattern `[a-z][a-z0-9_]*`. -/
def isRecordName (name : String) : Bool :=
  match name.toList with
  | [] => false
  | c :: rest => ('a' ≤ c ∧ c ≤ 'z') ∧
      rest.all (fun d => ('a' ≤ d ∧ d ≤ 'z') ∨ ('0' ≤ d ∧ d ≤ '9') ∨ d = '_')

/-- `records(name)`: the member of that name, made where there is none. -/
def getRecords (s : RecordStore) (name : String) : RecordStore × Option RecordError :=
  if s.closed then (s, some .closed)
  else if ¬ isRecordName name then (s, some .invalidName)
  else if s.records.contains name then (s, none)
  else ({ s with records := s.records.set name {} }, none)

/-- `append` on the member of that name. Only members that `records` made are appended to. -/
def append (s : RecordStore) (name : String) (a : Attempt) : RecordStore × Option RecordError :=
  if s.closed then (s, some .closed)
  else
    match s.records.get? name with
    | none => (s, some .invalidName)
    | some m =>
      if m.isSealed then (s, some .isSealed)
      else
        let (bytes, m, raised) := appendRecord s.limits s.bytes m a
        ({ s with bytes, records := s.records.set name m }, raised)

def sealRecords (s : RecordStore) (name : String) : RecordStore × Option RecordError :=
  if s.closed then (s, some .closed)
  else
    match s.records.get? name with
    | none => (s, some .invalidName)
    | some m => ({ s with records := s.records.set name { m with isSealed := true } }, none)

/-- Closing removes the directory with the files of all members. -/
def close (s : RecordStore) : RecordStore :=
  { s with closed := true, records := s.records.mapValues (fun _ m => { m with file := none }) }

end RecordStore

inductive RecordCall where
  | records (name : String)
  | append (name : String) (a : Attempt)
  | sealRecords (name : String)
  | close

def RecordStore.call (s : RecordStore) : RecordCall → RecordStore × Option RecordError
  | .records name => s.getRecords name
  | .append name a => s.append name a
  | .sealRecords name => s.sealRecords name
  | .close => (s.close, none)

end Sediment.Export

import Sediment.Base.Dict
import Sediment.Base.Journal
import Sediment.Base.Ordering
import Sediment.Base.Transitions
import Sediment.Cli.DeliveryRecords

namespace Sediment.Cli.Delivery
open Sediment.Base Decimals JsonScan Journal Transitions
open Sediment.Core Urls

/-- `MAX_ACTIVE_BYTES` -/
def maxActiveBytes : Nat := 256 * 1024 * 1024

/-- `MAX_ACTIVE_ENTRIES` -/
def maxActiveEntries : Nat := 2048

/-- `REPLAY_WINDOW_SECONDS` -/
def replayWindow : ℚ := 24 * 60 * 60

/-- `RECEIPT_RETENTION_SECONDS` -/
def receiptRetention : ℚ := 7 * 24 * 60 * 60

/-- `MAX_RECEIPTS` -/
def maxReceipts : Nat := 2048

/-- `MAX_BATCH_ATTEMPTS` -/
def maxBatchAttempts : Nat := 32

/-- `MAX_BACKOFF_SECONDS` -/
def maxBackoff : Nat := 60

/-- The files of a queue by their names without the suffix, and the number of temporary ones. -/
structure Directory where
  entries : Dict (List Char) Bytes
  states : Dict (List Char) Bytes
  receipts : Dict (List Char) Bytes
  temporaries : Nat

/-- What one call of the file system does; a file is published by renaming a temporary one. -/
inductive Op where
  | createTemporary
  | removeTemporary
  | publishEntry (id : List Char) (data : Bytes)
  | publishState (id : List Char) (data : Bytes)
  | publishReceipt (id : List Char) (data : Bytes)
  | removeEntry (id : List Char)
  | removeState (id : List Char)
  | removeReceipt (id : List Char)
  deriving DecidableEq

def without (files : Dict (List Char) Bytes) (id : List Char) : Dict (List Char) Bytes :=
  files.filter (fun k _ => decide (k ≠ id))

def Op.apply : Op → Directory → Directory
  | createTemporary, d => { d with temporaries := d.temporaries + 1 }
  | removeTemporary, d => { d with temporaries := d.temporaries - 1 }
  | publishEntry id data, d =>
    { d with entries := d.entries.set id data, temporaries := d.temporaries - 1 }
  | publishState id data, d =>
    { d with states := d.states.set id data, temporaries := d.temporaries - 1 }
  | publishReceipt id data, d =>
    { d with receipts := d.receipts.set id data, temporaries := d.temporaries - 1 }
  | removeEntry id, d => { d with entries := without d.entries id }
  | removeState id, d => { d with states := without d.states id }
  | removeReceipt id, d => { d with receipts := without d.receipts id }

instance : Effects Directory Op := ⟨Op.apply⟩

/-- What stands under a name of an entry. -/
def entryFiles (d : Directory) (name : List Char) : Option Bytes :=
  if ".entry".toList <:+ name then d.entries.get? (name.take (name.length - 6)) else none

/-- `queue.names(suffix)`, without the suffix. -/
def names (files : Dict (List Char) Bytes) (suffix : String) : List (List Char) :=
  sortedBy (fun id => id ++ suffix.toList) files.keys

/-- What is done under the lock by one process. -/
abbrev Section (α : Type) := Journal Directory Op Failure α

/-- `queue.atomic` -/
def atomic (publication : Op) : Section Unit := do
  perform .createTemporary
  perform publication

/-- The version of the interpreter: its table of digits, and how deep it decodes. -/
structure Runtime where
  digits : DigitTable
  depth : Nat

section
variable {τ : Type} [Clock τ]

/-- `_receipt` -/
def receipt (disposition : Disposition) (now : τ) : Section Unit := do
  atomic (.publishReceipt disposition.deliveryId (Receipt.encoded ⟨disposition, now⟩))
  perform (.removeEntry disposition.deliveryId)
  perform (.removeState disposition.deliveryId)

variable [JsonBytes]

/-- `_state` -/
def state (runtime : Runtime) (d : Directory) (id : List Char) : Except Failure (AttemptState τ) :=
  match d.states.get? id with
  | none => .ok ⟨.pending, 0, Clock.zero, .buffered⟩
  | some data =>
    match stateOf runtime.depth data with
    | none => .error (.delivery .invalidRecord)
    | some s => .ok s

/-- `_read_receipt` -/
def readReceipt (runtime : Runtime) (d : Directory) (id : List Char) :
    Except Failure (Receipt τ) :=
  match d.receipts.get? id with
  | none => .error .notFound
  | some data =>
    match receiptOf runtime.digits runtime.depth (receiptName id) data with
    | none => .error (.delivery .invalidRecord)
    | some r => .ok r

/-- `[0-9a-f-]{36}` -/
def isHyphened (id : List Char) : Bool :=
  id.length == 36 && id.all (fun c => isLowerHex c.toNat || c == '-')

/-- The name of an entry is the identity in its normal form. -/
def checkId (runtime : Runtime) (id : List Char) : Except Failure Unit :=
  if isHyphened id then
    match uuid runtime.digits id with
    | .error reason => .error (.delivery reason)
    | .ok normal => if normal = id then .ok () else .error (.delivery .invalidRecord)
  else .error (.delivery .invalidRecord)

variable [UnicodeText] [IpAddresses] [DatetimeReader]

def entryHeader (runtime : Runtime) (d : Directory) (id : List Char) : Except Failure (Header τ) :=
  header runtime.digits runtime.depth (entryFiles d) (entryName id)

/-- One turn of the loop of `_maintenance` over the entries; `known` has the receipts read before
it. -/
def maintainEntry (runtime : Runtime) (known : List (List Char)) (now : τ) (id : List Char) :
    Section Unit := do
  lift (checkId runtime id)
  if id ∈ known then
    -- a crash after a receipt was published can leave its entry
    perform (.removeEntry id)
    perform (.removeState id)
  else
    let d ← read
    match (entryHeader runtime d id : Except Failure (Header τ)) with
    | .ok h =>
      if Clock.elapsed now h.enqueuedAt < replayWindow then pure ()
      else receipt (disposed id .declined .expired) now
    | .error (.delivery .invalidRecord) => receipt (disposed id .declined .invalidRecord) now
    | .error e => fail e

/-- One turn of the loop over the receipts: it goes, or it is retained. -/
def retainReceipt (runtime : Runtime) (now : τ) (id : List Char) :
    Section (Option (τ × List Char)) := do
  let d ← read
  let r ← lift (readReceipt runtime d id : Except Failure (Receipt τ))
  if receiptRetention ≤ Clock.elapsed now r.completedAt then do
    perform (.removeReceipt id)
    pure none
  else pure (some (r.completedAt, id))

/-- The retained receipts beyond their number, the oldest first. -/
def surplus (retained : List (τ × List Char)) : List (List Char) :=
  ((sortedBy (fun r => toLex (r.1, receiptName r.2)) retained).take
    (retained.length - maxReceipts)).map Prod.snd

/-- `_maintenance` -/
def maintenance (runtime : Runtime) (now : τ) : Section Unit := do
  let d ← read
  let known := names d.receipts ".receipt"
  each (fun id => lift ((readReceipt runtime d id : Except Failure (Receipt τ)).map (fun _ => ())))
    known
  each (fun _ => perform .removeTemporary) (List.range d.temporaries)
  each (maintainEntry runtime known now) (names d.entries ".entry")
  let d ← read
  let retained ← collect (retainReceipt runtime now) (names d.receipts ".receipt")
  each (fun id => perform (.removeReceipt id)) (surplus retained)

/-- What `enqueue` does under the lock, with a validated request. -/
def enqueueSection [Sha256] (runtime : Runtime) (r : DeliveryRequest) (now : τ) :
    Section Disposition := do
  maintenance runtime now
  let d ← read
  if d.entries.contains r.deliveryId then do
    let h ← lift (entryHeader runtime d r.deliveryId : Except Failure (Header τ))
    let original ← lift (request runtime.digits (entryFiles d) h)
    if original = r then pure (disposed r.deliveryId .queued .alreadyBuffered)
    else pure (disposed r.deliveryId .declined .identityConflict)
  else if d.receipts.contains r.deliveryId then
    pure (disposed r.deliveryId .declined .identityConflict)
  else do
    let headers ← lift ((names d.entries ".entry").mapM
      (fun id => (entryHeader runtime d id : Except Failure (Header τ))))
    if maxActiveEntries ≤ headers.length ∨
        maxActiveBytes < (headers.map Header.bytes).sum + r.body.length then do
      let declined := disposed r.deliveryId .declined .bufferFull
      let _ ← caught (do
        receipt declined now
        maintenance runtime now)
      pure declined
    else do
      atomic (.publishEntry r.deliveryId (entryFile (headerFor r now) r.body))
      pure (disposed r.deliveryId .queued .buffered)

/-- When an entry is due, with its header. -/
def candidate (runtime : Runtime) (at' : List Char → τ) (id : List Char) :
    Section (Option (τ × Header τ)) := do
  let d ← read
  let h ← lift (entryHeader runtime d id : Except Failure (Header τ))
  match (state runtime d h.deliveryId : Except Failure (AttemptState τ)) with
  | .ok s =>
    pure (some (if s.nextAttempt = Clock.zero then h.enqueuedAt else s.nextAttempt, h))
  | .error (.delivery .invalidRecord) => do
    receipt (disposed h.deliveryId .declined .invalidRecord) (at' id)
    pure none
  | .error e => fail e

/-- The first section of `_batch`: the headers by due time. -/
def candidates (runtime : Runtime) (now : τ) (at' : List Char → τ) : Section (List (Header τ)) := do
  maintenance runtime now
  let d ← read
  let found ← collect (candidate runtime at') (names d.entries ".entry")
  pure ((sortedBy (fun c => toLex (c.1, toLex (c.2.enqueuedAt, c.2.deliveryId))) found).map
    Prod.snd)

/-- The section of `_batch` before an exchange; nothing comes of an entry that is not sent. The
times are those of its three looks at the clock. -/
def attempt [Sha256] (runtime : Runtime) (retryBlocked : Bool) (h : Header τ) (t₀ t₁ t₂ : τ) :
    Section (Option (AttemptState τ × DeliveryRequest)) := do
  let d ← read
  if ¬d.entries.contains h.deliveryId then pure none
  else if replayWindow ≤ Clock.elapsed t₀ h.enqueuedAt then do
    receipt (disposed h.deliveryId .declined .expired) t₁
    pure none
  else
    match (state runtime d h.deliveryId : Except Failure (AttemptState τ)) with
    | .error (.delivery .invalidRecord) => do
      receipt (disposed h.deliveryId .declined .invalidRecord) t₂
      pure none
    | .error e => fail e
    | .ok s =>
      if s.status = .blocked ∧ ¬retryBlocked then pure none
      else if s.status ≠ .blocked ∧ t₁ < s.nextAttempt then pure none
      else
        match request runtime.digits (entryFiles d) h with
        | .error (.delivery .invalidRecord) => do
          receipt (disposed h.deliveryId .declined .invalidRecord) t₂
          pure none
        | .error e => fail e
        | .ok r => pure (some (s, r))

/-- The delay before the next attempt, from the draw of `secrets.randbelow(1001)`. -/
def backoff (attempts draw : Nat) : ℚ :=
  let ceiling : ℚ := (min maxBackoff (2 ^ min attempts 6) : Nat)
  ceiling / 2 + draw / 1000 * ceiling / 2

/-- The section of `_batch` after an exchange. -/
def record (h : Header τ) (s : AttemptState τ) (result : Disposition) (now : τ) (draw : Nat) :
    Section Unit := do
  let d ← read
  if ¬d.entries.contains h.deliveryId then pure ()
  else if result.status.terminal then receipt result now
  else
    atomic (.publishState h.deliveryId (AttemptState.encoded
      ⟨result.status, s.attempts + 1, Clock.later now (backoff (s.attempts + 1) draw),
        result.reason⟩))

end

/-- Where a process is outside the lock: in no call, behind an `enqueue`, or in a batch, with the
headers still to look at and the number of exchanges so far, perhaps in an exchange. -/
inductive Place (τ : Type) where
  | idle
  | returned (r : DeliveryRequest) (result : Disposition)
  | batch (todo : List (Header τ)) (sent : Nat)
  | exchanging (h : Header τ) (s : AttemptState τ) (r : DeliveryRequest) (todo : List (Header τ))
      (sent : Nat)

/-- Under the lock a process has what it still does there, and where it goes then. -/
inductive Phase (τ : Type) where
  | outside (place : Place τ)
  | inside (ops : List Op) (next : Place τ)

/-- The directory, and whether `enqueue.lock` is held. -/
structure Shared where
  locked : Bool
  directory : Directory

/-- `_failure` -/
def failureReason : Failure → Reason
  | .delivery reason => reason
  | .notFound => .storageUnavailable

section
variable {τ : Type}

/-- What comes after the section of an `enqueue`. -/
def enqueued (r : DeliveryRequest) : Except Failure Disposition → Place τ
  | .ok result => .returned r result
  | .error e => .returned r (disposed r.deliveryId .declined (failureReason e))

/-- What comes after a section of a batch, which an error ends. -/
def batched {α : Type} (next : α → Place τ) : Except Failure α → Place τ
  | .ok a => next a
  | .error _ => .idle

def settled (h : Header τ) (todo : List (Header τ)) (sent : Nat) :
    Option (AttemptState τ × DeliveryRequest) → Place τ
  | none => .batch todo sent
  | some found => .exchanging h found.1 found.2 todo sent

/-- `summary["attempted"]` -/
def Reply.count (sent : Nat) : Reply → Nat
  | .unconfigured _ => sent
  | .unsent _ | .failed | .answered _ _ => sent + 1

variable [Clock τ] [JsonBytes] [UnicodeText] [IpAddresses] [DatetimeReader] [Sha256]

/-- A process takes the lock, and what it is to do under it is settled by what it finds. -/
inductive Begins (runtime : Runtime) (admits : Place τ → Directory → Prop) :
    Place τ → Directory → List Op → Place τ → Prop where
  | enqueue {r v : DeliveryRequest} {now : τ} {d : Directory}
      (h : validated runtime.digits r = .ok v) :
      Begins runtime admits .idle d (enqueueSection runtime v now d).1
        (enqueued v (enqueueSection runtime v now d).2)
  | collect {now : τ} {at' : List Char → τ} {d : Directory} :
      Begins runtime admits .idle d (candidates runtime now at' d).1
        (batched (fun hs => .batch hs 0) (candidates runtime now at' d).2)
  | attempt {retryBlocked : Bool} {h : Header τ} {todo : List (Header τ)} {sent : Nat}
      {t₀ t₁ t₂ : τ} {d : Directory} (hsent : sent < maxBatchAttempts)
      (hadmits : admits (.batch (h :: todo) sent) d) :
      Begins runtime admits (.batch (h :: todo) sent) d (attempt runtime retryBlocked h t₀ t₁ t₂ d).1
        (batched (settled h todo sent) (attempt runtime retryBlocked h t₀ t₁ t₂ d).2)
  | record {h : Header τ} {s : AttemptState τ} {r : DeliveryRequest} {todo : List (Header τ)}
      {sent : Nat} {reply : Reply} {now : τ} {draw : Nat} {d : Directory} (hdraw : draw ≤ 1000)
      (hadmits : admits (.exchanging h s r todo sent) d) :
      Begins runtime admits (.exchanging h s r todo sent) d
        (record h s (attempted runtime.depth r reply) now draw d).1
        (batched (fun _ => .batch todo (reply.count sent))
          (record h s (attempted runtime.depth r reply) now draw d).2)
  | finish {todo : List (Header τ)} {sent : Nat} {now : τ} {d : Directory} :
      Begins runtime admits (.batch todo sent) d (maintenance runtime now d).1
        (batched (fun _ => .idle) (maintenance runtime now d).2)

/-- What one process does at a time. -/
inductive Act (runtime : Runtime) (admits : Place τ → Directory → Prop) :
    Phase τ → Shared → Phase τ → Shared → Prop where
  | refuse {r : DeliveryRequest} {g : Shared} {reason : Reason} {id : List Char}
      (h : validated runtime.digits r = .error reason) :
      Act runtime admits (.outside .idle) g
        (.outside (.returned r (disposed id .declined reason))) g
  | busy {r : DeliveryRequest} {d : Directory} :
      Act runtime admits (.outside .idle) ⟨true, d⟩
        (.outside (.returned r (disposed r.deliveryId .declined .storageBusy))) ⟨true, d⟩
  | takeLock {a next : Place τ} {d : Directory} {ops : List Op}
      (h : Begins runtime admits a d ops next) :
      Act runtime admits (.outside a) ⟨false, d⟩ (.inside ops next) ⟨true, d⟩
  | perform {op : Op} {ops : List Op} {next : Place τ} {l : Bool} {d : Directory} :
      Act runtime admits (.inside (op :: ops) next) ⟨l, d⟩ (.inside ops next) ⟨l, op.apply d⟩
  | leave {next : Place τ} {l : Bool} {d : Directory} :
      Act runtime admits (.inside [] next) ⟨l, d⟩ (.outside next) ⟨false, d⟩
  /-- A crash, which lets go of the lock. -/
  | crash {ops : List Op} {next : Place τ} {l : Bool} {d : Directory} :
      Act runtime admits (.inside ops next) ⟨l, d⟩ (.outside .idle) ⟨false, d⟩
  /-- A call is over, or a process outside the lock ends. -/
  | leaveOff {a : Place τ} {g : Shared} : Act runtime admits (.outside a) g (.outside .idle) g

/-- The queue, used by any number of processes from a directory that `first` allows, with the
sections around an exchange only where `admits` allows them. -/
def queue (ι : Type) (runtime : Runtime) (first : Directory → Prop)
    (admits : Place τ → Directory → Prop) : Program ι (Phase τ) Shared where
  boot g := g.locked = false ∧ first g.directory
  entry := .outside .idle
  act _ a g b g' := Act runtime admits a g b g'

end

end Sediment.Cli.Delivery

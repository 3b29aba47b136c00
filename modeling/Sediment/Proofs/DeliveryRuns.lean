import Sediment.Proofs.DeliverySections

namespace Sediment.Proofs.DeliveryRuns
open Base JsonScan Journal Transitions
open Sediment.Core Urls
open Cli.Delivery DeliveryIdentity DeliveryEntry DeliveryRoundTrip DeliveryEffects
open DeliveryMaintenance DeliverySections

section
variable {τ : Type} [Clock τ] [JsonBytes] [UnicodeText] [IpAddresses] [DatetimeReader] [Sha256]
  {runtime : Runtime} {final : Prop} {spared : List Char → Prop} {now : τ}

/-- Neither an attempt nor what is recorded of one starts with a receipt beside the entry. -/
def Quiet : Place τ → Directory → Prop
  | .batch (h :: _) _, d =>
    d.entries.get? h.deliveryId ≠ none → d.receipts.get? h.deliveryId = none
  | .exchanging h _ r _ _, d =>
    d.entries.get? h.deliveryId ≠ none → d.receipts.get? r.deliveryId = none
  | _, _ => True

/-- Behind an `enqueue` that accepted its request, the request stands in the directory. -/
def Promised (runtime : Runtime) : Place τ → Directory → Prop
  | .returned r result, d => result.status = .queued →
    ∃ file, d.entries.get? r.deliveryId = some file ∧ Accepts τ runtime r result file
  | _, _ => True

/-- Outside a call of `enqueue` no entry is spared for it. -/
def NoneSpared : List Char → Prop := fun _ => False

/-- What a process under the lock still does is allowed, and leads to what it answers for. -/
def Sound (runtime : Runtime) (final : Prop) : Phase τ → Directory → Prop
  | .inside ops next, d =>
    Allowed (Guard τ runtime final NoneSpared) d ops ∧ Promised runtime next (after d ops)
  | .outside _, _ => True

/-- The request of an exchange has its identity in the normal form. -/
def Known (runtime : Runtime) : Place τ → Prop
  | .exchanging _ _ r _ _ => uuid runtime.digits r.deliveryId = .ok r.deliveryId
  | _ => True

/-- Where a process is, or is to be behind the lock. -/
def Phase.place : Phase τ → Place τ
  | .outside a => a
  | .inside _ next => next

variable {admits : Place τ → Directory → Prop} {first : Directory → Prop}

omit [Sha256] in
theorem promised_batched {α : Type} {next : α → Place τ} [Sha256]
    (h : ∀ a d, Promised runtime (next a) d) (e : Except Failure α) (d : Directory) :
    Promised runtime (batched next e) d := by
  cases e with
  | ok a => exact h a d
  | error e => trivial

theorem begins_sound (hc : ClockLaws τ) (hadmits : final → ∀ a d, admits a d → Quiet a d)
    {a next : Place τ} {d : Directory} {ops : List Op} (h : Begins runtime admits a d ops next)
    (hknown : Known runtime a) : Sound runtime final (.inside ops next) d := by
  cases h with
  | @enqueue r v now _ hvalid =>
    obtain ⟨-, -, -, -, -, hid⟩ := prepare_ok hvalid
    have hspec : Triple (Guard τ runtime final NoneSpared) (fun s => s = d)
        (enqueueSection runtime v now) _ _ :=
      enqueueSection_spec hc (fun _ => False.elim) (uuid_idem hid)
        (fun _ => validated_named hc hvalid now)
    obtain ⟨hallowed, hends⟩ := hspec d rfl
    refine ⟨hallowed, ?_⟩
    cases hr : (enqueueSection runtime v now d).2 with
    | ok result =>
      rw [hr] at hends
      exact hends
    | error e => exact (fun h => by cases h)
  | collect =>
    refine ⟨(candidates_spec (fun _ => id) d d rfl).1, promised_batched ?_ _ _⟩
    exact fun _ _ => trivial
  | attempt hsent hadmitted =>
    refine ⟨(attempt_spec d (fun hf => hadmits hf _ _ hadmitted) (fun _ => id) d rfl).1,
      promised_batched ?_ _ _⟩
    rintro (_ | _) _ <;> trivial
  | @record h s r todo sent reply now draw _ hdraw hadmitted =>
    refine ⟨(record_spec d (fun hf => ?_) ?_ (fun _ => id) (fun hterminal => ?_) d rfl).1,
      promised_batched ?_ _ _⟩
    · rw [attempted_deliveryId]
      exact hadmits hf _ _ hadmitted
    · rw [attempted_deliveryId]
      exact hknown
    · exact Or.inr ⟨r, reply, rfl, hterminal⟩
    · exact fun _ _ => trivial
  | finish =>
    refine ⟨(maintenance_spec (fun _ => False.elim) d rfl).1, promised_batched ?_ _ _⟩
    exact fun _ _ => trivial

theorem begins_known {a next : Place τ} {d : Directory} {ops : List Op}
    (h : Begins runtime admits a d ops next) : Known runtime next := by
  cases h with
  | @enqueue r v now _ _ =>
    generalize (enqueueSection runtime v now d).2 = result
    cases result <;> trivial
  | @collect now at' _ =>
    generalize (candidates runtime now at' d).2 = found
    cases found <;> trivial
  | @attempt retryBlocked h todo sent t₀ t₁ t₂ _ _ _ =>
    have hspec : Triple (Guard τ runtime False NoneSpared) (fun s => s = d)
        (attempt runtime retryBlocked h t₀ t₁ t₂) _ _ := attempt_spec d False.elim (fun _ => id)
    have hends := (hspec d rfl).2
    cases hr : (attempt runtime retryBlocked h t₀ t₁ t₂ d).2 with
    | error e => trivial
    | ok found =>
      rw [hr] at hends
      cases found with
      | none => trivial
      | some found => exact hends found.1 found.2 rfl
  | @record h s r _ _ reply now draw _ _ _ =>
    generalize (record h s (attempted runtime.depth r reply) now draw d).2 = recorded
    cases recorded <;> trivial
  | @finish _ _ now _ =>
    generalize (maintenance runtime now d).2 = maintained
    cases maintained <;> trivial

theorem act_known {a b : Phase τ} {g g' : Shared} (h : Act runtime admits a g b g')
    (hknown : Known runtime (Phase.place a)) : Known runtime (Phase.place b) := by
  cases h with
  | takeLock hbegins => exact begins_known hbegins
  | perform => exact hknown
  | leave => exact hknown
  | _ => trivial

def UnderLock : Phase τ → Prop
  | .inside _ _ => True
  | .outside _ => False

theorem queue_guarded (ι : Type) :
    (queue ι runtime first admits).Guarded UnderLock (fun g => g.locked = true) where
  entry := id
  outside := by
    intro p a g b g' h ha
    cases h with
    | refuse _ => exact Or.inl ⟨id, rfl⟩
    | busy => exact Or.inl ⟨id, rfl⟩
    | takeLock _ => exact Or.inr ⟨Bool.false_ne_true, rfl⟩
    | perform => exact absurd trivial ha
    | leave => exact absurd trivial ha
    | crash => exact absurd trivial ha
    | leaveOff => exact Or.inl ⟨id, rfl⟩
  inside := by
    intro p a g b g' h ha hb hg
    cases h with
    | perform => exact hg
    | takeLock _ => exact ha.elim
    | _ => exact hb.elim

/-- In every run each effect under the lock is allowed where it happens. -/
theorem queue_sound (hc : ClockLaws τ) (hadmits : final → ∀ a d, admits a d → Quiet a d)
    {G : Directory → Prop} (hfirst : ∀ d, first d → G d)
    (hkeeps : ∀ d op, Guard τ runtime final NoneSpared d op → G d → G (op.apply d))
    {ι : Type} [DecidableEq ι] {ms : List (Move (World ι (Phase τ) Shared) ι)}
    {w : World ι (Phase τ) Shared} (hr : (queue ι runtime first admits).system.Run ms w) :
    G w.shared.directory ∧
      ∀ p, UnderLock (w.phase p) → Sound runtime final (w.phase p) w.shared.directory := by
  refine (queue_guarded ι).invariant_within (L := fun _ a => Known runtime (Phase.place a))
    (G := fun g => G g.directory) (K := fun _ a g => Sound runtime final a g.directory)
    (fun _ => trivial) (fun _ _ _ _ _ h => act_known h) (fun g hg => hfirst _ hg.2) ?_ hr
  intro p a g b g' h hknown hG hK
  cases h with
  | refuse _ => exact ⟨hG, False.elim⟩
  | busy => exact ⟨hG, False.elim⟩
  | takeLock hbegins => exact ⟨hG, fun _ => begins_sound hc hadmits hbegins hknown⟩
  | perform =>
    obtain ⟨⟨hguard, hallowed⟩, hpromised⟩ := hK trivial
    exact ⟨hkeeps _ _ hguard hG, fun _ => ⟨hallowed, hpromised⟩⟩
  | leave => exact ⟨hG, False.elim⟩
  | crash => exact ⟨hG, False.elim⟩
  | leaveOff => exact ⟨hG, False.elim⟩

/-- The active entries keep to their number and to their bytes, whatever the processes do and
wherever they crash. -/
theorem entries_within_capacity (hc : ClockLaws τ) {ι : Type} [DecidableEq ι]
    {ms : List (Move (World ι (Phase τ) Shared) ι)} {w : World ι (Phase τ) Shared}
    (hr : (queue ι runtime (fun d => Fits d.entries)
      (fun (_ : Place τ) _ => True)).system.Run ms w) :
    w.shared.directory.entries.entries.length ≤ maxActiveEntries ∧
      (w.shared.directory.entries.values.map (fun file => (bodyOf file).length)).sum ≤
        maxActiveBytes := by
  have hkeeps : ∀ d op, Guard τ runtime False NoneSpared d op → Fits d.entries →
      Fits (op.apply d).entries := fun _ _ h => h.fits
  have hfits := (queue_sound hc False.elim (G := fun d => Fits d.entries) (fun _ h => h)
    hkeeps hr).1
  exact ⟨hfits.number, hfits.bytes⟩

section
variable {ι : Type} [DecidableEq ι] {ms ms' : List (Move (World ι (Phase τ) Shared) ι)}
  {w w' : World ι (Phase τ) Shared} {p : ι}

/-- One step of a sound world changes the directory by one allowed effect at most. -/
theorem step_effect
    (hsound : ∀ p, UnderLock (w.phase p) → Sound runtime final (w.phase p) w.shared.directory)
    (hs : (queue ι runtime first admits).system.step w p w') :
    w'.shared.directory = w.shared.directory ∨
      ∃ op, Guard τ runtime final NoneSpared w.shared.directory op ∧
        w'.shared.directory = op.apply w.shared.directory := by
  obtain ⟨b, hact, -⟩ := hs
  have hp := hsound p
  change Act runtime admits (w.phase p) w.shared b w'.shared at hact
  generalize w.phase p = a at hact hp
  generalize w.shared = g at hact hp ⊢
  generalize w'.shared = g' at hact ⊢
  cases hact with
  | @perform op _ _ _ _ => exact Or.inr ⟨op, (hp trivial).1.1, rfl⟩
  | _ => exact Or.inl rfl

omit [DecidableEq ι] in
/-- An `enqueue` that ends with an accepted request leaves it in the directory. -/
theorem act_returned {a : Phase τ} {g g' : Shared} {r : DeliveryRequest} {result : Disposition}
    (h : Act runtime admits a g (.outside (.returned r result)) g')
    (hqueued : result.status = .queued)
    (hsound : UnderLock a → Sound runtime final a g.directory) :
    ∃ file, g'.directory.entries.get? r.deliveryId = some file ∧
      Accepts τ runtime r result file := by
  cases h with
  | refuse _ => cases hqueued
  | busy => cases hqueued
  | leave => exact (hsound trivial).2 hqueued

/-- The entry goes in this move, with its receipt beside it. -/
structure Ended (id : List Char) (file : Bytes) (m : Move (World ι (Phase τ) Shared) ι) : Prop where
  present : m.before.shared.directory.entries.get? id = some file
  receipt : m.before.shared.directory.receipts.get? id ≠ none
  gone : m.after.shared.directory.entries.get? id = none

/-- Along a path an entry keeps its bytes, or it has ended. -/
theorem path_keeps (hc : ClockLaws τ) (hr : (queue ι runtime first admits).system.Run ms w)
    (hpath : (queue ι runtime first admits).system.Path w ms' w') {id : List Char} {file : Bytes}
    (hfile : w.shared.directory.entries.get? id = some file) :
    w'.shared.directory.entries.get? id = some file ∨ ∃ m ∈ ms', Ended id file m := by
  induction hpath with
  | here => exact Or.inl hfile
  | @move ms' t u q hpath hs ih =>
    rcases ih with hkept | ⟨m, hm, hended⟩
    · have hsound := (queue_sound (G := fun _ => True) hc (fun hf : False => hf.elim)
        (fun _ _ => trivial) (fun _ _ _ _ => trivial) (hr.along hpath)).2
      rcases step_effect hsound hs with hsame | ⟨op, hguard, hop⟩
      · exact Or.inl (hsame ▸ hkept)
      · rcases hguard.entry hkept with hstay | ⟨hreceipt, -, hgone⟩
        · exact Or.inl (hop ▸ hstay)
        · exact Or.inr ⟨⟨t, q, u⟩, by simp, hkept, hreceipt, hop ▸ hgone⟩
    · exact Or.inr ⟨m, List.mem_append_left _ hm, hended⟩

/-- The end of the call of `enqueue` that a process is behind: there its request stood in the
directory, and the process has done nothing since. -/
structure EndOfCall (first : Directory → Prop) (admits : Place τ → Directory → Prop)
    (runtime : Runtime) (ms : List (Move (World ι (Phase τ) Shared) ι))
    (w : World ι (Phase τ) Shared) (p : ι) (r : DeliveryRequest) (result : Disposition)
    (file : Bytes) (past since : List (Move (World ι (Phase τ) Shared) ι))
    (m : Move (World ι (Phase τ) Shared) ι) : Prop where
  cut : ms = past ++ m :: since
  last : m.label = p ∧ ∀ m' ∈ since, m'.label ≠ p
  accepts : Accepts τ runtime r result file
  present : m.after.shared.directory.entries.get? r.deliveryId = some file
  run : (queue ι runtime first admits).system.Run (past ++ [m]) m.after
  path : (queue ι runtime first admits).system.Path m.after since w

theorem end_of_call (hc : ClockLaws τ) (hr : (queue ι runtime first admits).system.Run ms w)
    {r : DeliveryRequest} {result : Disposition}
    (hphase : w.phase p = .outside (.returned r result)) (hqueued : result.status = .queued) :
    ∃ file past since m, EndOfCall first admits runtime ms w p r result file past since m := by
  induction hr with
  | start h =>
    rw [h.2 p] at hphase
    cases hphase
  | @move ms w t q hr hs ih =>
    have hsound := (queue_sound (G := fun _ => True) hc (fun hf : False => hf.elim)
      (fun _ _ => trivial) (fun _ _ _ _ => trivial) hr).2
    obtain ⟨b, hact, hnext⟩ := hs
    by_cases hq : q = p
    · subst hq
      rw [hnext, Function.update_self] at hphase
      subst hphase
      obtain ⟨file, hfile, haccepts⟩ := act_returned hact hqueued (hsound q)
      refine ⟨file, ms, [], ⟨w, q, t⟩, rfl, ⟨rfl, by simp⟩, haccepts, hfile, hr.move ?_, .here⟩
      exact ⟨_, hact, hnext⟩
    · rw [hnext, Function.update_of_ne (Ne.symm hq)] at hphase
      obtain ⟨file, past, since, m, h⟩ := ih hphase
      refine ⟨file, past, since ++ [⟨w, q, t⟩], m, ?_, ⟨h.last.1, ?_⟩, h.accepts, h.present, h.run,
        h.path.move ⟨b, hact, hnext⟩⟩
      · rw [h.cut]
        simp
      · intro m' hm'
        rcases List.mem_append.mp hm' with hm' | hm'
        · exact h.last.2 m' hm'
        · rw [List.mem_singleton.mp hm']
          exact hq

/-- A request whose `enqueue` answered that it is queued is not lost: since the end of that call its
entry keeps its bytes, or it has ended with its receipt beside it. -/
theorem accepted_request_kept (hc : ClockLaws τ)
    (hr : (queue ι runtime first (fun (_ : Place τ) _ => True)).system.Run ms w)
    {r : DeliveryRequest} {result : Disposition}
    (hphase : w.phase p = .outside (.returned r result)) (hqueued : result.status = .queued)
    (hpath : (queue ι runtime first (fun (_ : Place τ) _ => True)).system.Path w ms' w') :
    ∃ file past since m,
      EndOfCall first (fun (_ : Place τ) _ => True) runtime ms w p r result file past since m ∧
      (w'.shared.directory.entries.get? r.deliveryId = some file ∨
        ∃ m' ∈ since ++ ms', Ended r.deliveryId file m') := by
  obtain ⟨file, past, since, m, h⟩ := end_of_call hc hr hphase hqueued
  exact ⟨file, past, since, m, h, path_keeps hc h.run (h.path.trans hpath) h.present⟩

/-- In a run whose attempts start without a receipt beside their entry, a receipt is never
replaced, and it goes only when its entry is gone. -/
theorem receipts_final (hc : ClockLaws τ)
    (hr : (queue ι runtime first (Quiet : Place τ → Directory → Prop)).system.Run ms w)
    {m : Move (World ι (Phase τ) Shared) ι} (hm : m ∈ ms) {id : List Char} {data : Bytes}
    (hid : uuid runtime.digits id = .ok id)
    (hreceipt : m.before.shared.directory.receipts.get? id = some data) :
    m.after.shared.directory.receipts.get? id = some data ∨
      (m.before.shared.directory.entries.get? id = none ∧
        m.after.shared.directory.receipts.get? id = none) := by
  induction hr with
  | start _ => cases hm
  | @move ms t u q hr hs ih =>
    rcases List.mem_append.mp hm with hm | hm
    · exact ih hm
    · obtain rfl := List.mem_singleton.mp hm
      have hsound := (queue_sound (G := fun _ => True) hc (fun (_ : True) _ _ h => h)
        (fun _ _ => trivial) (fun _ _ _ _ => trivial) hr).2
      rcases step_effect hsound hs with hsame | ⟨op, hguard, hop⟩
      · exact Or.inl (hsame ▸ hreceipt)
      · rw [hop]
        exact hguard.receipt hid hreceipt

end

/-- A process that takes the lock can do all that it is to do there, and let go of it. -/
theorem section_goes {ι : Type} (p : ι) {a next : Place τ} {d : Directory} {ops : List Op}
    (h : Begins runtime admits a d ops next) : (queue ι runtime first admits).Goes p
      (.outside a, ⟨false, d⟩) (.outside next, ⟨false, after d ops⟩) := by
  have hinside : ∀ (ops : List Op) (d : Directory), (queue ι runtime first admits).Goes p
      (.inside ops next, ⟨true, d⟩) (.inside [] next, ⟨true, after d ops⟩) := by
    intro ops
    induction ops with
    | nil => exact fun _ => .refl
    | cons op ops ih => exact fun d => .after .perform (ih (op.apply d))
  exact .then (.after (.takeLock h) (hinside ops d)) .leave

end

section
local instance : UnicodeText := ServerUrls.asciiText
local instance : IpAddresses := ServerUrls.noAddresses
local instance : DatetimeReader := isoReader
local instance : Clock Seconds := secondsClock
local instance : Sha256 := bodyDigests
local instance : JsonBytes := noBytes

def emptyDirectory : Directory := ⟨.empty, .empty, .empty, 0⟩

def queuedHeader : Header Seconds := headerFor preparedRequest earlyTime

def queuedEntry : Bytes := entryFile queuedHeader someBody

/-- The state of an entry that was not attempted yet. -/
def firstState : AttemptState Seconds := ⟨.pending, 0, Clock.zero, .buffered⟩

/-- `{"fact_id":"f-1","stored":true}` -/
def storedReply : Bytes :=
  "\x7b\"fact_id\":\"f-1\",\"stored\":true\x7d".toList.flatMap String.utf8EncodeChar

def storedResult : Disposition :=
  ⟨preparedRequest.deliveryId, .acknowledged, .gatewayStored, some (codePoints "f-1"), some true⟩

def storedReceipt : Bytes := Receipt.encoded ⟨storedResult, earlyTime⟩

/-- What recording the reply does. -/
def recordedOps : List Op :=
  [.createTemporary, .publishReceipt preparedRequest.deliveryId storedReceipt,
    .removeEntry preparedRequest.deliveryId, .removeState preparedRequest.deliveryId]

def storedDirectory : Directory := after (soleEntry queuedEntry) recordedOps

section
variable {ι : Type} {admits : Place Seconds → Directory → Prop} {first : Directory → Prop}

/-- A process enqueues the request in the empty queue. -/
theorem enqueue_goes (p : ι) : (queue ι plainRuntime first admits).Goes p
    (.outside .idle, ⟨false, emptyDirectory⟩)
    (.outside (.returned preparedRequest (disposed preparedRequest.deliveryId .queued .buffered)),
      ⟨false, soleEntry queuedEntry⟩) := by
  have hvalid : validated plainRuntime.digits preparedRequest = .ok preparedRequest := by
    decide +kernel
  have hops : enqueueSection plainRuntime preparedRequest earlyTime emptyDirectory =
      ([.createTemporary, .publishEntry preparedRequest.deliveryId queuedEntry],
        .ok (disposed preparedRequest.deliveryId .queued .buffered)) := by decide +kernel
  have hbegins : Begins plainRuntime admits .idle emptyDirectory
      (enqueueSection plainRuntime preparedRequest earlyTime emptyDirectory).1
      (enqueued preparedRequest
        (enqueueSection plainRuntime preparedRequest earlyTime emptyDirectory).2) := .enqueue hvalid
  rw [hops] at hbegins
  exact section_goes p hbegins

/-- A process delivers the request: it collects the headers, attempts the one there is and records
the reply. -/
theorem deliver_goes (p : ι)
    (hattempt : admits (.batch [queuedHeader] 0) (soleEntry queuedEntry))
    (hrecord : admits (.exchanging queuedHeader firstState preparedRequest [] 0)
      (soleEntry queuedEntry)) :
    (queue ι plainRuntime first admits).Goes p (.outside .idle, ⟨false, soleEntry queuedEntry⟩)
      (.outside (.batch [] 1), ⟨false, storedDirectory⟩) := by
  have hcollects : Begins plainRuntime admits .idle (soleEntry queuedEntry)
      (candidates plainRuntime earlyTime (fun _ => earlyTime) (soleEntry queuedEntry)).1
      (batched (fun hs => .batch hs 0)
        (candidates plainRuntime earlyTime (fun _ => earlyTime) (soleEntry queuedEntry)).2) :=
    .collect
  have hfound : candidates plainRuntime earlyTime (fun _ => earlyTime) (soleEntry queuedEntry) =
      ([], .ok [queuedHeader]) := by decide +kernel
  rw [hfound] at hcollects
  have hattempts : Begins plainRuntime admits (.batch [queuedHeader] 0) (soleEntry queuedEntry)
      (attempt plainRuntime false queuedHeader earlyTime earlyTime earlyTime
        (soleEntry queuedEntry)).1
      (batched (settled queuedHeader [] 0) (attempt plainRuntime false queuedHeader earlyTime
        earlyTime earlyTime (soleEntry queuedEntry)).2) := .attempt (by decide) hattempt
  have hsent : attempt plainRuntime false queuedHeader earlyTime earlyTime earlyTime
      (soleEntry queuedEntry) = ([], .ok (some (firstState, preparedRequest))) := by
    decide +kernel
  rw [hsent] at hattempts
  have hrecords : Begins plainRuntime admits
      (.exchanging queuedHeader firstState preparedRequest [] 0) (soleEntry queuedEntry)
      (record queuedHeader firstState (attempted plainRuntime.depth preparedRequest
        (.answered 200 storedReply)) earlyTime 0 (soleEntry queuedEntry)).1
      (batched (fun _ => .batch [] 1) (record queuedHeader firstState (attempted plainRuntime.depth
        preparedRequest (.answered 200 storedReply)) earlyTime 0 (soleEntry queuedEntry)).2) :=
    .record (by decide) hrecord
  have hrecorded : record queuedHeader firstState (attempted plainRuntime.depth preparedRequest
      (.answered 200 storedReply)) earlyTime 0 (soleEntry queuedEntry) =
        (recordedOps, .ok ()) := by decide +kernel
  rw [hrecorded] at hrecords
  exact (section_goes p hcollects).trans
    ((section_goes p hattempts).trans (section_goes p hrecords))

theorem idle_runs [DecidableEq ι] (hfirst : first emptyDirectory) :
    (queue ι plainRuntime first admits).system.Run []
      ⟨⟨false, emptyDirectory⟩, fun _ => .outside .idle⟩ :=
  .start ⟨⟨rfl, hfirst⟩, fun _ => rfl⟩

end

/-- Behind its `enqueue` the request is all that the queue holds. -/
theorem queued_request_fits :
    (soleEntry queuedEntry).entries.entries.length ≤ maxActiveEntries ∧
      ((soleEntry queuedEntry).entries.values.map (fun file => (bodyOf file).length)).sum ≤
        maxActiveBytes := by
  have hstart : (queue Unit plainRuntime (fun d => Fits d.entries)
      (fun (_ : Place Seconds) _ => True)).system.Run [] _ :=
    idle_runs ⟨Nat.zero_le _, Nat.zero_le _⟩
  obtain ⟨ms, hrun⟩ := (enqueue_goes ()).run hstart rfl
  exact entries_within_capacity secondsClock_laws hrun

/-- Another process delivers the request behind the call that enqueued it. -/
theorem delivered_request_ended : ∃ ms w ms' w' file past since m,
    EndOfCall (fun _ => True) (fun (_ : Place Seconds) _ => True) plainRuntime ms w false
      preparedRequest (disposed preparedRequest.deliveryId .queued .buffered) file past since m ∧
    (queue Bool plainRuntime (fun _ => True) (fun (_ : Place Seconds) _ => True)).system.Path
      w ms' w' ∧
    ∃ m' ∈ since ++ ms', Ended preparedRequest.deliveryId file m' := by
  have hstart : (queue Bool plainRuntime (fun _ => True)
      (fun (_ : Place Seconds) _ => True)).system.Run [] _ := idle_runs trivial
  obtain ⟨ms, w, hreturned, hidle, hshared, hrun⟩ : ∃ ms w,
      w.phase false = .outside (.returned preparedRequest
        (disposed preparedRequest.deliveryId .queued .buffered)) ∧
      w.phase true = .outside .idle ∧ w.shared = ⟨false, soleEntry queuedEntry⟩ ∧
      (queue Bool plainRuntime (fun _ => True) (fun (_ : Place Seconds) _ => True)).system.Run
        ms w := by
    obtain ⟨ms, hrun⟩ := (enqueue_goes false).run hstart rfl
    refine ⟨ms, _, ?_, ?_, ?_, hrun⟩ <;> rfl
  have hgoes : (queue Bool plainRuntime (fun _ => True) (fun (_ : Place Seconds) _ => True)).Goes
      true _ _ := deliver_goes true trivial trivial
  obtain ⟨ms', hpath⟩ := hgoes.path (by rw [hidle, hshared])
  have hgone : storedDirectory.entries.get? preparedRequest.deliveryId = none := by decide +kernel
  obtain ⟨file, past, since, m, hend, hkept | hended⟩ :=
    accepted_request_kept secondsClock_laws hrun hreturned rfl hpath
  · exact absurd (hgone.symm.trans hkept) (Option.some_ne_none file).symm
  · exact ⟨ms, _, ms', _, file, past, since, m, hend, hpath, hended⟩

/-- The receipt of the delivered request goes a week later, with no entry beside it. -/
theorem stored_receipt_removed : ∃ ms w m,
    (queue Bool plainRuntime (fun d => d = emptyDirectory)
      (Quiet : Place Seconds → Directory → Prop)).system.Run ms w ∧ m ∈ ms ∧
    m.before.shared.directory.receipts.get? preparedRequest.deliveryId = some storedReceipt ∧
    m.before.shared.directory.entries.get? preparedRequest.deliveryId = none ∧
    m.after.shared.directory.receipts.get? preparedRequest.deliveryId = none := by
  have hstart : (queue Bool plainRuntime (fun d => d = emptyDirectory)
      (Quiet : Place Seconds → Directory → Prop)).system.Run [] _ := idle_runs rfl
  obtain ⟨ms, hrun⟩ := (enqueue_goes false).run hstart rfl
  obtain ⟨ms', hrun'⟩ := (deliver_goes true (fun _ => rfl) (fun _ => rfl)).run hrun rfl
  have hcollects : Begins plainRuntime (Quiet : Place Seconds → Directory → Prop) .idle
      storedDirectory (candidates plainRuntime lateTime (fun _ => lateTime) storedDirectory).1
      (batched (fun hs => .batch hs 0)
        (candidates plainRuntime lateTime (fun _ => lateTime) storedDirectory).2) := .collect
  have hfound : candidates plainRuntime lateTime (fun _ => lateTime) storedDirectory =
      ([.removeReceipt preparedRequest.deliveryId], .ok []) := by decide +kernel
  rw [hfound] at hcollects
  have hgoes : (queue Bool plainRuntime (fun d => d = emptyDirectory)
      (Quiet : Place Seconds → Directory → Prop)).Goes false
      (.outside (.returned preparedRequest (disposed preparedRequest.deliveryId .queued .buffered)),
        ⟨false, storedDirectory⟩)
      (.inside [.removeReceipt preparedRequest.deliveryId] (.batch [] 0),
        ⟨true, storedDirectory⟩) := .after .leaveOff (.after (.takeLock hcollects) .refl)
  obtain ⟨ms'', w, hphase, hshared, hrun''⟩ : ∃ ms w,
      w.phase false = .inside [.removeReceipt preparedRequest.deliveryId] (.batch [] 0) ∧
      w.shared = ⟨true, storedDirectory⟩ ∧ (queue Bool plainRuntime (fun d => d = emptyDirectory)
        (Quiet : Place Seconds → Directory → Prop)).system.Run ms w := by
    obtain ⟨ms'', hrun''⟩ := hgoes.run hrun' rfl
    refine ⟨ms'', _, ?_, ?_, hrun''⟩ <;> rfl
  have hstep : (queue Bool plainRuntime (fun d => d = emptyDirectory)
      (Quiet : Place Seconds → Directory → Prop)).system.step w false
      ⟨⟨true, Op.apply (.removeReceipt preparedRequest.deliveryId) storedDirectory⟩,
        Function.update w.phase false (.inside [] (.batch [] 0))⟩ := by
    refine ⟨.inside [] (.batch [] 0), ?_, rfl⟩
    rw [hphase, hshared]
    exact .perform
  have hreceipt : storedDirectory.receipts.get? preparedRequest.deliveryId = some storedReceipt := by
    decide +kernel
  have hid : uuid plainRuntime.digits preparedRequest.deliveryId = .ok preparedRequest.deliveryId := by
    decide +kernel
  have hremoved : (Op.apply (.removeReceipt preparedRequest.deliveryId)
      storedDirectory).receipts.get? preparedRequest.deliveryId = none := by decide +kernel
  have hbefore : w.shared.directory = storedDirectory := by rw [hshared]
  have hlast := hrun''.move hstep
  rcases receipts_final secondsClock_laws hlast (List.mem_append_right _ (List.mem_singleton_self _))
    hid (hbefore ▸ hreceipt) with hkept | hends
  · exact absurd (hremoved.symm.trans hkept) (Option.some_ne_none _).symm
  · exact ⟨_, _, _, hlast, List.mem_append_right _ (List.mem_singleton_self _),
      hbefore ▸ hreceipt, hends⟩

end

end Sediment.Proofs.DeliveryRuns

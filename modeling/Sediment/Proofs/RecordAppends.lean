import Sediment.Base.Transitions
import Sediment.Export.FileRecords

namespace Sediment.Proofs.RecordAppends
open Sediment.Base Sediment.Base.Transitions Sediment.Export

def payload (chunks : List Chunk) : Bytes := chunks.flatMap Chunk.data

/-- Quota, member count and handed-over bytes grow together, within both limits. -/
structure Reserved (limits : RecordLimits) (start storeBytes : Nat) (p : Progress) : Prop where
  member : p.bytes = start + p.pending.length
  store : p.storeBytes = storeBytes + p.pending.length
  record : p.pending.length ≤ limits.maxRecordBytes
  staging : p.storeBytes ≤ limits.maxStagingBytes

theorem appendChunks_spec {limits : RecordLimits} {start storeBytes : Nat} {p : Progress}
    (h : Reserved limits start storeBytes p) (chunks : List Chunk) :
    Reserved limits start storeBytes (appendChunks limits start p chunks).1 ∧
      ((appendChunks limits start p chunks).2 = none →
        (appendChunks limits start p chunks).1.pending = p.pending ++ payload chunks ∧
        (appendChunks limits start p chunks).1.digest = p.digest.update (payload chunks)) := by
  induction chunks generalizing p with
  | nil => exact ⟨h, fun _ => by simp [appendChunks, payload, Digest.update]⟩
  | cons chunk rest ih =>
    rw [appendChunks]
    split
    · exact ⟨h, fun hnone => by cases hnone⟩
    split
    · exact ⟨h, fun hnone => by cases hnone⟩
    rename_i hrecord hstaging
    have hmember := h.member
    have hstore := h.store
    have hreserved : ∀ d : Digest, Reserved limits start storeBytes
        ⟨p.storeBytes + chunk.data.length, p.bytes + chunk.data.length, d,
          p.pending ++ chunk.data⟩ := by
      intro d
      constructor
      · simp only [List.length_append]
        omega
      · simp only [List.length_append]
        omega
      · simp only [List.length_append]
        omega
      · simp only
        omega
    simp only
    split
    · obtain ⟨hkept, hdone⟩ := ih (hreserved (p.digest.update chunk.data))
      refine ⟨hkept, fun hnone => ?_⟩
      obtain ⟨hpending, hdigest⟩ := hdone hnone
      rw [hpending, hdigest]
      simp [payload, Digest.update, List.append_assoc]
    · exact ⟨hreserved p.digest, fun hnone => by cases hnone⟩

/-- Where each record of a file lies. -/
def tiling : Nat → List Bytes → List (Nat × Nat)
  | _, [] => []
  | start, row :: rows => (start, row.length) :: tiling (start + row.length) rows

theorem tiling_append (start : Nat) (rows : List Bytes) (row : Bytes) :
    tiling start (rows ++ [row]) =
      tiling start rows ++ [(start + rows.flatten.length, row.length)] := by
  induction rows generalizing start with
  | nil => simp [tiling]
  | cons first rows ih =>
    rw [List.cons_append, tiling, ih, tiling, List.cons_append, List.flatten_cons,
      List.length_append, Nat.add_assoc]

/-- Read back at its offset, each record is what was appended. -/
theorem read_tiling (front : Bytes) (rows : List Bytes) :
    (tiling front.length rows).map (fun place =>
      ((front ++ rows.flatten).drop place.1).take place.2) = rows := by
  induction rows generalizing front with
  | nil => rfl
  | cons row rows ih =>
    have hrest := ih (front ++ row)
    rw [List.length_append, List.append_assoc] at hrest
    rw [tiling, List.map_cons, List.flatten_cons, hrest]
    simp

/-- The member holds these records and nothing else, in a file that goes when the store is
closed. -/
structure Holds (limits : RecordLimits) (closed : Bool) (m : FileRecords) (rows : List Bytes) :
    Prop where
  file : m.file = if closed then none else some rows.flatten
  offsets : m.offsets = tiling 0 rows
  digest : m.digest = Digest.update {} rows.flatten
  bytes : m.bytes = rows.flatten.length
  records : ∀ row ∈ rows, row.length ≤ limits.maxRecordBytes

theorem holds_nothing (limits : RecordLimits) : Holds limits false {} [] := by
  constructor
  · rfl
  · rfl
  · rfl
  · rfl
  · simp

/-- A call either adds its record or changes nothing. -/
theorem appendRecord_spec {limits : RecordLimits} {storeBytes : Nat} {m : FileRecords}
    {rows : List Bytes} (h : Holds limits false m rows)
    (hstore : storeBytes ≤ limits.maxStagingBytes)
    (a : Attempt) :
    (∃ e, appendRecord limits storeBytes m a = (storeBytes, m, some e)) ∨
    ∃ m', appendRecord limits storeBytes m a =
        (storeBytes + (payload a.chunks).length, m', none) ∧
      Holds limits false m' (rows ++ [payload a.chunks]) ∧
      m'.bytes = m.bytes + (payload a.chunks).length ∧
      storeBytes + (payload a.chunks).length ≤ limits.maxStagingBytes := by
  have hstart : Reserved limits m.bytes storeBytes ⟨storeBytes, m.bytes, m.digest, []⟩ :=
    ⟨rfl, rfl, Nat.zero_le _, hstore⟩
  obtain ⟨hreserved, hdone⟩ := appendChunks_spec hstart a.chunks
  generalize hrun : appendChunks limits m.bytes ⟨storeBytes, m.bytes, m.digest, []⟩ a.chunks = run
    at hreserved hdone
  obtain ⟨p, raised⟩ := run
  have hmember := hreserved.member
  have hquota := hreserved.store
  have hbytes := h.bytes
  have hrows : m.file = some rows.flatten := h.file
  simp only at hmember hquota hdone
  unfold appendRecord
  simp only [hrun]
  generalize hend : (raised.or (if a.encoded then none else some .encoder)).or
    (if a.flushed then none else some RecordError.write) = outcome
  cases outcome with
  | some e =>
    left
    refine ⟨e, ?_⟩
    have hfile : m.file.map (fun data => (data ++ p.pending.take a.landed).take m.bytes) =
        m.file := by
      rw [hrows, hbytes, Option.map_some, List.take_append_of_le_length (le_refl _),
        List.take_length]
    simp only [hfile, Prod.mk.injEq, and_true]
    omega
  | none =>
    right
    have hraised : raised = none := by
      cases raised with
      | none => rfl
      | some e => simp at hend
    obtain ⟨hpending, hdigest⟩ := hdone hraised
    rw [List.nil_append] at hpending
    have hlen : p.pending.length = (payload a.chunks).length := by rw [hpending]
    refine ⟨{ m with
      file := m.file.map (· ++ p.pending)
      offsets := m.offsets ++ [(m.bytes, p.bytes - m.bytes)]
      bytes := p.bytes
      digest := p.digest }, ?_, ?_, ?_, ?_⟩
    · simp only [Prod.mk.injEq, and_true]
      omega
    · constructor
      · simp only [hpending, hrows, Option.map_some, List.flatten_append, List.flatten_singleton,
          Bool.false_eq_true, if_false]
      · have hsize : p.bytes - m.bytes = (payload a.chunks).length := by omega
        simp only [hsize]
        rw [h.offsets, tiling_append, hbytes, Nat.zero_add]
      · simp only [hdigest, h.digest, Digest.update, List.flatten_append, List.flatten_singleton,
          List.append_assoc]
      · simp only [List.flatten_append, List.flatten_singleton, List.length_append]
        omega
      · intro row hrow
        rcases List.mem_append.mp hrow with hrow | hrow
        · exact h.records row hrow
        · rw [List.mem_singleton.mp hrow, ← hlen]
          exact hreserved.record
    · simp only
      omega
    · have hstaging := hreserved.staging
      simp only at hstaging
      omega

theorem sum_alterEntries {α : Type} (w : α → Nat) (key : String) (v : α)
    {entries : List (String × α)} (hn : (entries.map Prod.fst).Nodup) :
    ((Dict.alterEntries key (fun _ => v) entries).map (fun e => w e.2)).sum +
        ((entries.lookup key).map w).getD 0 = (entries.map (fun e => w e.2)).sum + w v := by
  induction entries with
  | nil => simp [Dict.alterEntries]
  | cons e rest ih =>
    simp only [List.map_cons, List.nodup_cons] at hn
    have hrest := ih hn.2
    rw [Dict.lookup_cons_ite, Dict.alterEntries]
    split
    · simp only [List.map_cons, List.sum_cons, Option.map_some, Option.getD_some]
      omega
    · simp only [List.map_cons, List.sum_cons]
      omega

/-- Setting one member moves the total by what that member gains. -/
theorem sum_set {α : Type} (w : α → Nat) (d : Dict String α) (key : String) (v : α) :
    ((d.set key v).values.map w).sum + ((d.get? key).map w).getD 0 =
      (d.values.map w).sum + w v := by
  have hsum := sum_alterEntries w key v d.nodup
  simp only [Dict.values, Dict.set, Dict.alter, Dict.get?, List.map_map, Function.comp_def] at hsum ⊢
  exact hsum

theorem alterEntries_self {α : Type} {key : String} {v : α} {entries : List (String × α)}
    (h : entries.lookup key = some v) : Dict.alterEntries key (fun _ => v) entries = entries := by
  induction entries with
  | nil => cases h
  | cons e rest ih =>
    obtain ⟨k, w⟩ := e
    rw [Dict.lookup_cons_ite] at h
    rw [Dict.alterEntries]
    split at h
    · rename_i heq
      cases h
      simp only at heq
      rw [if_pos heq, heq]
    · rename_i hne
      rw [if_neg hne, ih h]

/-- Setting a key to the value it has changes nothing. -/
theorem set_self {α : Type} {d : Dict String α} {key : String} {v : α} (h : d.get? key = some v) :
    d.set key v = d := by
  obtain ⟨entries, hn⟩ := d
  simp only [Dict.set, Dict.alter, Dict.mk.injEq]
  exact alterEntries_self h

/-- What each member should hold: the records of the appends that succeeded. -/
abbrev Ledger := String → List Bytes

structure Represents (s : RecordStore) (ledger : Ledger) : Prop where
  members : ∀ name m, s.records.get? name = some m → Holds s.limits s.closed m (ledger name)
  absent : ∀ name, s.records.get? name = none → ledger name = []
  total : s.bytes = (s.records.values.map FileRecords.bytes).sum
  staging : s.bytes ≤ s.limits.maxStagingBytes

/-- The ledger after a call: an append that raised nothing adds its record. -/
def Ledger.after (ledger : Ledger) : RecordCall → Option RecordError → Ledger
  | .append name a, none => Function.update ledger name (ledger name ++ [payload a.chunks])
  | _, _ => ledger

/-- The calls of a run on a store with these limits, each with what it raised. -/
def recordSystem (limits : RecordLimits) :
    System (RecordStore × Ledger) (RecordCall × Option RecordError) where
  start x := x = ({ limits }, fun _ => [])
  step x e y := x.1.call e.1 = (y.1, e.2) ∧ y.2 = x.2.after e.1 e.2

variable {s s' : RecordStore} {ledger : Ledger} {raised : Option RecordError}

theorem represents_start (limits : RecordLimits) : Represents { limits } (fun _ => []) := by
  constructor
  · intro name m h
    cases h
  · intro name h
    rfl
  · rfl
  · exact Nat.zero_le _

/-- A member that keeps its records and its size keeps the store represented. -/
theorem Represents.set (h : Represents s ledger) {name : String} {m : FileRecords}
    (hm : Holds s.limits s.closed m (ledger name))
    (hsize : m.bytes = ((s.records.get? name).map FileRecords.bytes).getD 0) :
    Represents { s with records := s.records.set name m } ledger := by
  constructor
  · intro other m' hget
    simp only [Dict.get?_set] at hget
    split at hget
    · rename_i heq
      cases hget
      rw [heq]
      exact hm
    · exact h.members other m' hget
  · intro other hget
    simp only [Dict.get?_set] at hget
    split at hget
    · cases hget
    · exact h.absent other hget
  · have hsum := sum_set FileRecords.bytes s.records name m
    have htotal := h.total
    simp only
    omega
  · exact h.staging

theorem Represents.append (h : Represents s ledger) (name : String) (a : Attempt)
    (hcall : s.append name a = (s', raised)) :
    Represents s' (ledger.after (.append name a) raised) ∧ (raised.isSome → s' = s) := by
  unfold RecordStore.append at hcall
  split at hcall
  · cases hcall
    exact ⟨h, fun _ => rfl⟩
  rename_i hopen
  have hclosed : s.closed = false := by rwa [Bool.not_eq_true] at hopen
  cases hget : s.records.get? name with
  | none =>
    rw [hget] at hcall
    cases hcall
    exact ⟨h, fun _ => rfl⟩
  | some m =>
    rw [hget] at hcall
    simp only at hcall
    split at hcall
    · cases hcall
      exact ⟨h, fun _ => rfl⟩
    have hm := h.members name m hget
    rw [hclosed] at hm
    rcases appendRecord_spec hm h.staging a with
      ⟨e, hfailed⟩ | ⟨m', hdone, hholds, hsize, hstaging⟩
    · rw [hfailed] at hcall
      cases hcall
      rw [set_self hget]
      exact ⟨h, fun _ => rfl⟩
    · rw [hdone] at hcall
      cases hcall
      refine ⟨?_, fun hsome => by cases hsome⟩
      constructor
      · intro other m'' hother
        simp only [Dict.get?_set] at hother
        simp only [Ledger.after]
        split at hother
        · rename_i heq
          cases hother
          rw [heq, Function.update_self, hclosed]
          exact hholds
        · rename_i hne
          rw [Function.update_of_ne hne]
          exact h.members other m'' hother
      · intro other hother
        simp only [Dict.get?_set] at hother
        simp only [Ledger.after]
        split at hother
        · cases hother
        · rename_i hne
          rw [Function.update_of_ne hne]
          exact h.absent other hother
      · have hsum := sum_set FileRecords.bytes s.records name m'
        have htotal := h.total
        rw [hget, Option.map_some, Option.getD_some] at hsum
        simp only
        omega
      · exact hstaging

theorem Represents.getRecords (h : Represents s ledger) (name : String)
    (hcall : s.getRecords name = (s', raised)) : Represents s' ledger := by
  unfold RecordStore.getRecords at hcall
  split at hcall
  · cases hcall
    exact h
  rename_i hopen
  have hclosed : s.closed = false := by rwa [Bool.not_eq_true] at hopen
  split at hcall
  · cases hcall
    exact h
  split at hcall
  · cases hcall
    exact h
  rename_i hnew
  cases hcall
  have hnone : s.records.get? name = none := by
    rw [Dict.contains, Bool.not_eq_true, Option.isSome_eq_false_iff, Option.isNone_iff_eq_none]
      at hnew
    exact hnew
  apply h.set
  · rw [h.absent name hnone]
    rw [hclosed]
    exact holds_nothing s.limits
  · rw [hnone]
    rfl

theorem Represents.sealRecords (h : Represents s ledger) (name : String)
    (hcall : s.sealRecords name = (s', raised)) : Represents s' ledger := by
  unfold RecordStore.sealRecords at hcall
  split at hcall
  · cases hcall
    exact h
  cases hget : s.records.get? name with
  | none =>
    rw [hget] at hcall
    cases hcall
    exact h
  | some m =>
    rw [hget] at hcall
    cases hcall
    have hm := h.members name m hget
    apply h.set
    · exact ⟨hm.file, hm.offsets, hm.digest, hm.bytes, hm.records⟩
    · rw [hget]
      rfl

/-- Closing takes the files and keeps what is known of them. -/
theorem Represents.close (h : Represents s ledger) : Represents s.close ledger := by
  constructor
  · intro name m hget
    rw [RecordStore.close, Dict.get?_mapValues, Option.map_eq_some_iff] at hget
    obtain ⟨old, hold, rfl⟩ := hget
    have hm := h.members name old hold
    exact ⟨rfl, hm.offsets, hm.digest, hm.bytes, hm.records⟩
  · intro name hget
    rw [RecordStore.close, Dict.get?_mapValues, Option.map_eq_none_iff] at hget
    exact h.absent name hget
  · have hvalues : (s.close.records.values.map FileRecords.bytes) =
        s.records.values.map FileRecords.bytes := by
      simp [RecordStore.close, Dict.values, Dict.mapValues, Function.comp_def]
    rw [hvalues]
    exact h.total
  · exact h.staging

theorem represents_step {limits : RecordLimits} (x : RecordStore × Ledger)
    (e : RecordCall × Option RecordError) (y : RecordStore × Ledger)
    (hs : (recordSystem limits).step x e y) (h : Represents x.1 x.2) : Represents y.1 y.2 := by
  obtain ⟨s, ledger⟩ := x
  obtain ⟨call, raised⟩ := e
  obtain ⟨s', ledger'⟩ := y
  obtain ⟨hcall, hledger⟩ := hs
  simp only at hcall hledger h ⊢
  rw [hledger]
  cases call with
  | records name => exact h.getRecords name hcall
  | append name a => exact (h.append name a hcall).1
  | sealRecords name => exact h.sealRecords name hcall
  | close =>
    cases hcall
    exact h.close

theorem call_limits (s : RecordStore) (call : RecordCall) : (s.call call).1.limits = s.limits := by
  cases call with
  | records name =>
    simp only [RecordStore.call, RecordStore.getRecords]
    split_ifs <;> rfl
  | append name a =>
    simp only [RecordStore.call, RecordStore.append]
    split
    · rfl
    · split
      · rfl
      · split <;> rfl
  | sealRecords name =>
    simp only [RecordStore.call, RecordStore.sealRecords]
    split
    · rfl
    · split <;> rfl
  | close => rfl

/-- After every call of every run the file of each member, until the store is closed, is its
successful records, tiled by its offsets and counted and digested as they are, and the store counts
them all within its limit; a call to append that raises leaves the store as it was. -/
theorem failed_append_restores {limits : RecordLimits}
    {ms : List (Move (RecordStore × Ledger) (RecordCall × Option RecordError))}
    {x : RecordStore × Ledger} (h : (recordSystem limits).Run ms x) :
    (∀ name m, x.1.records.get? name = some m →
      m.file = (if x.1.closed then none else some (x.2 name).flatten) ∧
      m.offsets = tiling 0 (x.2 name) ∧
      m.offsets.map (fun place => ((x.2 name).flatten.drop place.1).take place.2) = x.2 name ∧
      m.digest = Digest.update {} (x.2 name).flatten ∧
      m.bytes = (x.2 name).flatten.length) ∧
    x.1.bytes = (x.1.records.values.map FileRecords.bytes).sum ∧
    x.1.bytes ≤ limits.maxStagingBytes ∧
    ∀ name a raised s', x.1.append name a = (s', raised) → raised.isSome → s' = x.1 := by
  have hrun : Represents x.1 x.2 ∧ x.1.limits = limits := by
    apply h.invariant
    · intro y hy
      rw [hy]
      exact ⟨represents_start limits, rfl⟩
    · intro y e z hs hy
      refine ⟨represents_step y e z hs hy.1, ?_⟩
      have hkeep := call_limits y.1 e.1
      rw [hs.1] at hkeep
      rw [hkeep]
      exact hy.2
  obtain ⟨hrep, hlimits⟩ := hrun
  have hstaging := hrep.staging
  rw [hlimits] at hstaging
  refine ⟨?_, hrep.total, hstaging, ?_⟩
  · intro name m hget
    have hm := hrep.members name m hget
    have hread := read_tiling [] (x.2 name)
    simp only [List.nil_append, List.length_nil] at hread
    refine ⟨hm.file, hm.offsets, ?_, hm.digest, hm.bytes⟩
    rw [hm.offsets, hread]
  · intro name a raised s' hcall hraised
    exact (hrep.append name a hcall).2 hraised

def fits : Attempt := ⟨[⟨[1, 2], true⟩, ⟨[3], true⟩], true, true, 0⟩

def breaks : Attempt := ⟨[⟨[4, 5], true⟩, ⟨[6], false⟩], true, true, 2⟩

def oneRecord : RecordStore :=
  ((({ limits := ⟨10, 10⟩ : RecordStore }).call (.records "calls")).1.call (.append "calls" fits)).1

def oneLedger : Ledger := (Ledger.after (fun _ => []) (.append "calls" fits) none)

theorem oneRecord_run : ∃ ms, (recordSystem ⟨10, 10⟩).Run ms (oneRecord, oneLedger) := by
  have hstart : (recordSystem ⟨10, 10⟩).Run [] ({ limits := ⟨10, 10⟩ }, fun _ => []) :=
    System.Run.start rfl
  have hmade : (recordSystem ⟨10, 10⟩).step ({ limits := ⟨10, 10⟩ }, fun _ => [])
      (.records "calls", none)
      ((({ limits := ⟨10, 10⟩ : RecordStore }).call (.records "calls")).1, fun _ => []) :=
    ⟨rfl, rfl⟩
  have hadded : (recordSystem ⟨10, 10⟩).step
      ((({ limits := ⟨10, 10⟩ : RecordStore }).call (.records "calls")).1, fun _ => [])
      (.append "calls" fits, none) (oneRecord, oneLedger) := ⟨rfl, rfl⟩
  exact ⟨_, (hstart.move hmade).move hadded⟩

/-- A write error after two bytes leaves the first record and nothing of the second. -/
theorem broken_write_restored :
    ∃ s', oneRecord.append "calls" breaks = (s', some .write) ∧ s' = oneRecord := by
  obtain ⟨ms, hrun⟩ := oneRecord_run
  exact ⟨oneRecord, rfl, (failed_append_restores hrun).2.2.2 "calls" breaks _ _ rfl rfl⟩

end Sediment.Proofs.RecordAppends

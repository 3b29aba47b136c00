import Sediment.Base.JsonIterencode
import Sediment.Base.Results
import Sediment.Cli.TranscriptRequests
import Sediment.Proofs.ServerUrls

namespace Sediment.Proofs.TranscriptRequests
open Sediment.Base Sediment.Base.JsonScan Sediment.Cli.TranscriptRequests

theorem dumpsItems_map (items : List JsonValue) : dumps.dumpsItems items = items.map dumps := by
  induction items with
  | nil => rfl
  | cons item rest ih => rw [dumps.dumpsItems, ih, List.map_cons]

theorem dumps_envelope (resource : JsonValue) (records : List JsonValue) :
    dumps (envelope resource records) =
      prefixText resource ++ spaced (records.map dumps) ++ suffixText := by
  have houter : dumps (envelope resource records) =
      "\x7b\"resourceLogs\": [\x7b\"resource\": ".toList ++ (dumps resource ++
        (", \"scopeLogs\": [\x7b\"logRecords\": [".toList ++
          (spaced (dumps.dumpsItems records) ++ "]\x7d]\x7d]\x7d".toList))) := by
    have hquote : quoteText (codePoints "resourceLogs") = "\"resourceLogs\"".toList := by decide
    have hresource : quoteText (codePoints "resource") = "\"resource\"".toList := by decide
    have hscope : quoteText (codePoints "scopeLogs") = "\"scopeLogs\"".toList := by decide
    have hrecords : quoteText (codePoints "logRecords") = "\"logRecords\"".toList := by decide
    simp only [envelope, dumps, dumps.dumpsItems, dumps.dumpsFields, spaced, hquote, hresource,
      hscope, hrecords]
    simp
  rw [houter, dumpsItems_map]
  unfold prefixText suffixText
  simp only [List.append_assoc]

theorem length_spaced_concat (texts : List (List Char)) (text : List Char) :
    (spaced (texts ++ [text])).length =
      (spaced texts).length + (text.length + if texts = [] then 0 else 2) := by
  induction texts with
  | nil => simp [spaced]
  | cons first rest ih =>
    cases rest with
    | nil => simp [spaced]
    | cons next rest =>
      have hcons : ∀ tail, spaced (first :: next :: tail) =
          first ++ ',' :: ' ' :: spaced (next :: tail) := by
        intro tail
        rw [spaced]
        intro h
        cases h
      rw [List.cons_append, List.cons_append, hcons, hcons, List.length_append,
        List.length_append, List.length_cons, List.length_cons, List.length_cons,
        List.length_cons, ← List.cons_append, ih, if_neg (List.cons_ne_nil _ _),
        if_neg (List.cons_ne_nil _ _)]
      omega

/-- The record fits a request of its own. -/
def fits (resource record : JsonValue) : Bool :=
  envelopeBytes resource + (dumps record).length ≤ maxEntryBytes

/-- The requests so far hold whole groups of records, and the open chunk those behind them. -/
structure Packs (destination : String) (resource : JsonValue) (seen : List JsonValue)
    (s : Packing) (groups : List (List JsonValue)) (pending : List JsonValue) : Prop where
  prepared : s.prepared.map (fun p => (p.1.destination, p.1.body, p.2)) =
    groups.map (fun g => (destination, dumps (envelope resource g), g.length))
  nonempty : ∀ g ∈ groups, g ≠ []
  chunk : s.chunk = pending.map dumps
  bytes : s.chunkBytes = envelopeBytes resource + (spaced s.chunk).length
  room : s.chunk ≠ [] → s.chunkBytes ≤ maxEntryBytes
  placed : groups.flatten ++ pending = seen.filter (fits resource)
  oversized : s.oversized = seen.countP (fun record => !fits resource record)

section
variable {url destination : String} {resource : JsonValue} {seen : List JsonValue}
  {s : Packing} {groups : List (List JsonValue)} {pending : List JsonValue}

theorem packs_start (destination : String) (resource : JsonValue) :
    Packs destination resource [] { chunkBytes := envelopeBytes resource } [] [] where
  prepared := rfl
  nonempty := fun _ hg => absurd hg List.not_mem_nil
  chunk := rfl
  bytes := rfl
  room := fun h => absurd rfl h
  placed := rfl
  oversized := rfl

theorem finished_packs {request : DeliveryRequest} {s' : Packing}
    (h : Packs destination resource seen s groups pending) (hne : s.chunk ≠ [])
    (hdestination : request.destination = destination)
    (hbody : request.body = dumps (envelope resource pending))
    (hprepared : s'.prepared = s.prepared ++ [(request, s.chunk.length)])
    (hchunk : s'.chunk = []) (hbytes : s'.chunkBytes = envelopeBytes resource)
    (hoversized : s'.oversized = s.oversized) :
    Packs destination resource seen s' (groups ++ [pending]) [] where
  prepared := by
    rw [hprepared, List.map_append, List.map_append, h.prepared, List.map_singleton,
      List.map_singleton, hdestination, hbody, h.chunk, List.length_map]
  nonempty := by
    intro g hg
    rcases List.mem_append.mp hg with hg | hg
    · exact h.nonempty g hg
    · rw [List.mem_singleton.mp hg]
      intro hnil
      exact hne (by rw [h.chunk, hnil]; rfl)
  chunk := hchunk
  bytes := by
    rw [hbytes, hchunk]
    rfl
  room := fun hno => absurd hchunk hno
  placed := by
    rw [List.flatten_append, List.flatten_singleton, List.append_nil, h.placed]
  oversized := hoversized.trans h.oversized

variable [Destinations]

theorem prepareRequest_ok {body : List Char} (hurl : Destinations.destination url = some destination)
    (h : body.length ≤ maxEntryBytes) :
    prepareRequest url body = .ok ⟨destination, body, h⟩ := by
  unfold prepareRequest
  rw [dif_pos h, hurl]

/-- The open chunk becomes a request. -/
theorem finish_ok (hurl : Destinations.destination url = some destination)
    (h : Packs destination resource seen s groups pending) (hne : s.chunk ≠ []) :
    ∃ request, finish url resource s =
        .ok { s with prepared := s.prepared ++ [(request, s.chunk.length)] } ∧
      request.destination = destination ∧ request.body = dumps (envelope resource pending) := by
  have htext : prefixText resource ++ spaced s.chunk ++ suffixText =
      dumps (envelope resource pending) := by
    rw [dumps_envelope, h.chunk]
  have hlength : (prefixText resource ++ spaced s.chunk ++ suffixText).length ≤ maxEntryBytes := by
    have hroom := h.room hne
    rw [h.bytes, envelopeBytes] at hroom
    rw [List.length_append, List.length_append]
    omega
  refine ⟨⟨destination, _, hlength⟩, ?_, rfl, htext⟩
  unfold finish
  rw [prepareRequest_ok hurl hlength]
  rfl

theorem makeRoom_ok (hurl : Destinations.destination url = some destination)
    (h : Packs destination resource seen s groups pending) (size : Nat) :
    ∃ s' groups' pending', makeRoom url resource s size = .ok s' ∧
      Packs destination resource seen s' groups' pending' ∧
      (s'.chunk ≠ [] → s'.chunkBytes + 2 + size ≤ maxEntryBytes) := by
  unfold makeRoom
  split
  · rename_i hfull
    obtain ⟨request, hfinish, hdestination, hbody⟩ := finish_ok hurl h hfull.1
    rw [hfinish]
    refine ⟨_, _, _, rfl, finished_packs h hfull.1 hdestination hbody rfl rfl rfl rfl, ?_⟩
    intro hno
    exact absurd rfl hno
  · rename_i hfull
    refine ⟨s, groups, pending, rfl, h, ?_⟩
    intro hne
    exact not_lt.mp (fun hlt => hfull ⟨hne, hlt⟩)

/-- One record is placed behind those before it, or counted as oversized. -/
theorem packRecord_ok (hurl : Destinations.destination url = some destination)
    (h : Packs destination resource seen s groups pending) (record : JsonValue) :
    ∃ s' groups' pending', packRecord url resource s record = .ok s' ∧
      Packs destination resource (seen ++ [record]) s' groups' pending' := by
  unfold packRecord
  simp only
  split
  · rename_i hlarge
    have hfits : fits resource record = false := decide_eq_false (not_le.mpr hlarge)
    refine ⟨_, groups, pending, rfl, h.prepared, h.nonempty, h.chunk, h.bytes, h.room, ?_, ?_⟩
    · rw [List.filter_append, List.filter_cons_of_neg (by rw [hfits]; exact Bool.false_ne_true),
        List.filter_nil, List.append_nil]
      exact h.placed
    · change s.oversized + 1 = _
      rw [List.countP_append, h.oversized, List.countP_singleton, hfits]
      rfl
  · rename_i hsmall
    have hfits : fits resource record = true := decide_eq_true (not_lt.mp hsmall)
    obtain ⟨s', groups', pending', hroom, hpacks, hspace⟩ :=
      makeRoom_ok hurl h (dumps record).length
    rw [hroom, ok_bind]
    refine ⟨_, groups', pending' ++ [record], rfl, hpacks.prepared, hpacks.nonempty, ?_, ?_, ?_,
      ?_, ?_⟩
    · change s'.chunk ++ [dumps record] = _
      rw [hpacks.chunk, List.map_append, List.map_singleton]
    · change s'.chunkBytes + _ = _ + (spaced (s'.chunk ++ [dumps record])).length
      rw [length_spaced_concat, hpacks.bytes]
      omega
    · intro _
      change s'.chunkBytes + ((dumps record).length + if s'.chunk = [] then 0 else 2) ≤ _
      split
      · rename_i hnil
        have hbytes := hpacks.bytes
        rw [hnil] at hbytes
        change s'.chunkBytes = envelopeBytes resource + 0 at hbytes
        omega
      · rename_i hne
        have hsize := hspace hne
        omega
    · rw [← List.append_assoc, hpacks.placed, List.filter_append,
        List.filter_cons_of_pos (by rw [hfits]), List.filter_nil]
    · change s'.oversized = _
      rw [List.countP_append, hpacks.oversized, List.countP_singleton, hfits]
      rfl

theorem packRecords_ok (hurl : Destinations.destination url = some destination)
    (records : List JsonValue) :
    ∃ s groups pending, records.foldlM (packRecord url resource)
        { chunkBytes := envelopeBytes resource } = .ok s ∧
      Packs destination resource records s groups pending := by
  induction records using List.reverseRecOn with
  | nil => exact ⟨_, [], [], rfl, packs_start destination resource⟩
  | append_singleton records record ih =>
    obtain ⟨s, groups, pending, hs, hpacks⟩ := ih
    obtain ⟨s', groups', pending', hs', hpacks'⟩ := packRecord_ok hurl hpacks record
    refine ⟨s', groups', pending', ?_, hpacks'⟩
    rw [List.foldlM_append, hs, ok_bind, List.foldlM_cons, hs']
    rfl

/-- What a list of requests holds of the records it was prepared from. -/
structure Prepared (destination : String) (resource : JsonValue) (records : List JsonValue)
    (prepared : List (DeliveryRequest × Nat)) (oversized : Nat) : Prop where
  groups : ∃ groups : List (List JsonValue),
    prepared.map (fun p => (p.1.destination, p.1.body, p.2)) =
      groups.map (fun g => (destination, dumps (envelope resource g), g.length)) ∧
    groups.flatten = records.filter (fits resource) ∧ ∀ g ∈ groups, g ≠ []
  bounded : ∀ p ∈ prepared, p.1.body.length ≤ maxEntryBytes
  oversized : oversized = records.countP (fun record => !fits resource record)

theorem prepareRequests_ok (hurl : Destinations.destination url = some destination)
    (resource : JsonValue) (records : List JsonValue) :
    ∃ prepared oversized, prepareRequests url resource records = .ok (prepared, oversized) ∧
      Prepared destination resource records prepared oversized := by
  obtain ⟨s, groups, pending, hs, hpacks⟩ := @packRecords_ok _ _ resource _ hurl records
  unfold prepareRequests
  rw [hs, ok_bind]
  by_cases hchunk : s.chunk = []
  · rw [if_pos hchunk]
    have hpending : pending = [] := by
      rw [hpacks.chunk] at hchunk
      exact List.map_eq_nil_iff.mp hchunk
    have hplaced := hpacks.placed
    rw [hpending, List.append_nil] at hplaced
    exact ⟨_, _, rfl, ⟨groups, hpacks.prepared, hplaced, hpacks.nonempty⟩,
      fun p _ => p.1.bounded, hpacks.oversized⟩
  · rw [if_neg hchunk]
    obtain ⟨request, hfinish, hdestination, hbody⟩ := finish_ok hurl hpacks hchunk
    have hdone : Packs destination resource records
        { prepared := s.prepared ++ [(request, s.chunk.length)], chunk := [],
          chunkBytes := envelopeBytes resource, oversized := s.oversized }
        (groups ++ [pending]) [] :=
      finished_packs hpacks hchunk hdestination hbody rfl rfl rfl rfl
    have hplaced := hdone.placed
    rw [List.append_nil] at hplaced
    rw [hfinish]
    exact ⟨_, _, rfl, ⟨groups ++ [pending], hdone.prepared, hplaced, hdone.nonempty⟩,
      fun p _ => p.1.bounded, hdone.oversized⟩

/-- Without a destination no chunk becomes a request. -/
theorem finish_none (hurl : Destinations.destination url = none) (s s' : Packing) :
    finish url resource s ≠ .ok s' := by
  intro h
  unfold finish at h
  obtain ⟨request, hrequest, -⟩ := bind_ok.mp h
  unfold prepareRequest at hrequest
  split at hrequest
  · rw [hurl] at hrequest
    cases hrequest
  · cases hrequest

theorem packRecords_none (hurl : Destinations.destination url = none) {records : List JsonValue}
    (h : records.foldlM (packRecord url resource) { chunkBytes := envelopeBytes resource } =
      .ok s) :
    s.prepared = [] ∧ s.chunk = (records.filter (fits resource)).map dumps ∧
      s.oversized = records.countP (fun record => !fits resource record) := by
  induction records using List.reverseRecOn generalizing s with
  | nil =>
    cases h
    exact ⟨rfl, rfl, rfl⟩
  | append_singleton records record ih =>
    rw [List.foldlM_append] at h
    obtain ⟨before, hbefore, h⟩ := bind_ok.mp h
    rw [List.foldlM_cons] at h
    obtain ⟨after, hafter, h⟩ := bind_ok.mp h
    cases h
    obtain ⟨hprepared, hchunk, hoversized⟩ := ih hbefore
    rw [List.filter_append, List.countP_append, List.countP_singleton]
    unfold packRecord at hafter
    simp only at hafter
    split at hafter
    · rename_i hlarge
      have hfits : fits resource record = false := decide_eq_false (not_le.mpr hlarge)
      cases hafter
      rw [List.filter_cons_of_neg (by rw [hfits]; exact Bool.false_ne_true), List.filter_nil,
        List.append_nil, hfits]
      exact ⟨hprepared, hchunk, congrArg (· + 1) hoversized⟩
    · rename_i hsmall
      have hfits : fits resource record = true := decide_eq_true (not_lt.mp hsmall)
      obtain ⟨room, hroom, hlast⟩ := bind_ok.mp hafter
      have hsame : room = before := by
        unfold makeRoom at hroom
        split at hroom
        · obtain ⟨done, hdone, -⟩ := bind_ok.mp hroom
          exact absurd hdone (finish_none hurl _ _)
        · cases hroom
          rfl
      subst hsame
      cases hlast
      rw [List.filter_cons_of_pos (by rw [hfits]), List.filter_nil, hfits, List.map_append,
        List.map_singleton, ← hchunk]
      exact ⟨hprepared, rfl, hoversized⟩

theorem prepareRequests_none (hurl : Destinations.destination url = none)
    {records : List JsonValue} {prepared : List (DeliveryRequest × Nat)} {oversized : Nat}
    (h : prepareRequests url resource records = .ok (prepared, oversized)) :
    prepared = [] ∧ oversized = records.length := by
  unfold prepareRequests at h
  obtain ⟨s, hs, h⟩ := bind_ok.mp h
  obtain ⟨hprepared, hchunk, hoversized⟩ := packRecords_none hurl hs
  split at h
  · rename_i hnil
    rw [hchunk] at hnil
    have hnone := List.filter_eq_nil_iff.mp (List.map_eq_nil_iff.mp hnil)
    cases h
    refine ⟨hprepared, hoversized.trans (List.countP_eq_length.mpr ?_)⟩
    intro record hrecord
    rw [eq_false_of_ne_true (hnone record hrecord)]
    rfl
  · obtain ⟨done, hdone, -⟩ := bind_ok.mp h
    exact absurd hdone (finish_none hurl _ _)

end

theorem sum_alter (d : Dict String Nat) (key : String) (n : Nat) :
    (d.alter key (fun o => o.getD 0 + n)).values.sum = d.values.sum + n := by
  obtain ⟨entries, hnodup⟩ := d
  change ((Dict.alterEntries key _ entries).map Prod.snd).sum = (entries.map Prod.snd).sum + n
  clear hnodup
  induction entries with
  | nil => simp [Dict.alterEntries]
  | cons e rest ih =>
    rw [Dict.alterEntries]
    split
    · rw [List.map_cons, List.map_cons, List.sum_cons, List.sum_cons, Option.getD_some]
      omega
    · rw [List.map_cons, List.map_cons, List.sum_cons, List.sum_cons, ih]
      omega

/-- What a summary has counted: queued, acknowledged, unsuccessful and never submitted. -/
def counted (s : Summary) : UnitTotals where
  requests := s.queued.requests + s.acknowledged.requests + s.unsuccessfulRequests.values.sum +
    s.unsubmitted.requests
  records := s.queued.records + s.acknowledged.records + s.unsuccessfulRecords.values.sum +
    s.unsubmitted.records

theorem counted_count (s : Summary) (status : String) (records : Nat) :
    (counted (s.count status records)).requests = (counted s).requests + 1 ∧
      (counted (s.count status records)).records = (counted s).records + records := by
  unfold Summary.count
  split
  · simp only [counted, UnitTotals.add]
    omega
  · split
    · simp only [counted, UnitTotals.add]
      omega
    · simp only [counted, sum_alter]
      omega

theorem counted_unsubmitted {s : Summary} (hs : s.unsubmitted = {}) (suffix : UnitTotals) :
    (counted { s with unsubmitted := suffix }).requests = (counted s).requests + suffix.requests ∧
      (counted { s with unsubmitted := suffix }).records =
        (counted s).records + suffix.records := by
  simp only [counted, hs]
  exact ⟨rfl, rfl⟩

theorem count_fixed (s : Summary) (status : String) (records : Nat) :
    (s.count status records).prepared = s.prepared ∧
      (s.count status records).recordTooLarge = s.recordTooLarge ∧
      (s.count status records).unsubmitted = s.unsubmitted := by
  unfold Summary.count
  split
  · exact ⟨rfl, rfl, rfl⟩
  · split <;> exact ⟨rfl, rfl, rfl⟩

/-- The loop counts every request behind those it has counted, once. -/
theorem publishLoop_counted (deliver : Nat → DeliveryRequest → Attempt) (index : Nat)
    (s : Summary) (prepared : List (DeliveryRequest × Nat)) (hs : s.unsubmitted = {}) :
    (counted (publishLoop deliver index s prepared)).requests =
        (counted s).requests + (unitsOf prepared).requests ∧
      (counted (publishLoop deliver index s prepared)).records =
        (counted s).records + (unitsOf prepared).records ∧
      (publishLoop deliver index s prepared).prepared = s.prepared ∧
      (publishLoop deliver index s prepared).recordTooLarge = s.recordTooLarge := by
  induction prepared generalizing index s with
  | nil => exact ⟨rfl, rfl, rfl, rfl⟩
  | cons p suffix ih =>
    obtain ⟨request, records⟩ := p
    obtain ⟨hrequests, hrecords⟩ :=
      counted_count s (attemptStatus (deliver index request)).1 records
    obtain ⟨hprepared, hlarge, hunsubmitted⟩ :=
      count_fixed s (attemptStatus (deliver index request)).1 records
    rw [hs] at hunsubmitted
    have hunits : (unitsOf ((request, records) :: suffix)).requests =
          (unitsOf suffix).requests + 1 ∧
        (unitsOf ((request, records) :: suffix)).records =
          records + (unitsOf suffix).records := ⟨rfl, rfl⟩
    rw [publishLoop]
    split
    · obtain ⟨hstopped, hstopped'⟩ := counted_unsubmitted hunsubmitted (unitsOf suffix)
      refine ⟨?_, ?_, hprepared, hlarge⟩
      · rw [hstopped, hrequests, hunits.1]
        omega
      · rw [hstopped', hrecords, hunits.2]
        omega
    · obtain ⟨ihrequests, ihrecords, ihprepared, ihlarge⟩ := ih (index + 1) _ hunsubmitted
      refine ⟨?_, ?_, ihprepared.trans hprepared, ihlarge.trans hlarge⟩
      · rw [ihrequests, hunits.1]
        omega
      · rw [ihrecords, hunits.2]
        omega

theorem sum_lengths {resource : JsonValue} {records : List JsonValue} {destination : String}
    {prepared : List (DeliveryRequest × Nat)} {oversized : Nat}
    (h : Prepared destination resource records prepared oversized) :
    (prepared.map Prod.snd).sum + oversized = records.length := by
  obtain ⟨groups, hprepared, hflatten, -⟩ := h.groups
  have hcounts : prepared.map Prod.snd = groups.map List.length := by
    have hsnd := congrArg (List.map (fun p : String × List Char × Nat => p.2.2)) hprepared
    rw [List.map_map, List.map_map] at hsnd
    exact hsnd
  rw [hcounts, ← List.length_flatten, hflatten, h.oversized, ← List.countP_eq_length_filter,
    List.length_eq_countP_add_countP (fits resource)]
  congr 2
  funext record
  cases fits resource record <;> rfl

/-- What a publication reports accounts for every prepared request and record. -/
structure Accounted (total : Nat) (s : Summary) : Prop where
  requests : s.queued.requests + s.acknowledged.requests + s.unsuccessfulRequests.values.sum +
    s.unsubmitted.requests = s.prepared.requests
  records : s.queued.records + s.acknowledged.records + s.unsuccessfulRecords.values.sum +
    s.unsubmitted.records = s.prepared.records
  candidates : s.prepared.records + s.recordTooLarge = total

section
variable [Destinations]

theorem publish_accounted {deliver : Nat → DeliveryRequest → Attempt} {url : String}
    {payload : TranscriptPayload} {s : Summary} {complete : Bool}
    (h : publish deliver url payload = .ok (s, complete)) :
    Accounted payload.logRecords.length s := by
  unfold publish at h
  obtain ⟨⟨prepared, oversized⟩, hprepare, h⟩ := bind_ok.mp h
  cases h
  obtain ⟨hrequests, hrecords, hprepared, hlarge⟩ := publishLoop_counted deliver 0
    { candidates := candidateRecords payload, prepared := unitsOf prepared,
      recordTooLarge := oversized } prepared rfl
  have hcandidates : (prepared.map Prod.snd).sum + oversized = payload.logRecords.length := by
    cases hurl : Destinations.destination url with
    | some destination =>
      obtain ⟨prepared', oversized', hok, hexact⟩ := prepareRequests_ok hurl payload.resource
        (payload.logRecords.map TranscriptRecord.json)
      rw [hprepare] at hok
      cases hok
      rw [sum_lengths hexact, List.length_map]
    | none =>
      obtain ⟨hnil, hover⟩ := prepareRequests_none hurl hprepare
      rw [hnil, List.map_nil, List.sum_nil, zero_add, hover, List.length_map]
  refine ⟨?_, ?_, ?_⟩
  · rw [hprepared]
    change _ = 0 + 0 + 0 + 0 + (unitsOf prepared).requests at hrequests
    change _ = (unitsOf prepared).requests
    simp only [Nat.zero_add] at hrequests
    exact hrequests
  · rw [hprepared]
    change _ = 0 + 0 + 0 + 0 + (unitsOf prepared).records at hrecords
    change _ = (unitsOf prepared).records
    simp only [Nat.zero_add] at hrecords
    exact hrecords
  · rw [hprepared, hlarge]
    exact hcandidates

end

/-- Packing loses and repeats no record, and a publication reports each request and record once. -/
theorem transcript_requests_exact [Destinations] :
    (∀ url destination, Destinations.destination url = some destination →
      ∀ resource records, ∃ prepared oversized,
        prepareRequests url resource records = .ok (prepared, oversized) ∧
        Prepared destination resource records prepared oversized) ∧
    (∀ url, Destinations.destination url = none → ∀ resource records prepared oversized,
      prepareRequests url resource records = .ok (prepared, oversized) →
        prepared = [] ∧ oversized = records.length) ∧
    ∀ deliver url payload s complete, publish deliver url payload = .ok (s, complete) →
      Accounted payload.logRecords.length s := by
  refine ⟨?_, ?_, ?_⟩
  · intro url destination hurl resource records
    exact prepareRequests_ok hurl resource records
  · intro url hurl resource records prepared oversized h
    exact prepareRequests_none hurl h
  · intro deliver url payload s complete h
    exact publish_accounted h

theorem one_group {α : Type} {groups : List (List α)} {a : α} (h : groups.flatten = [a])
    (hne : ∀ g ∈ groups, g ≠ []) : groups = [[a]] := by
  cases groups with
  | nil => cases h
  | cons g groups =>
    cases g with
    | nil => exact absurd rfl (hne [] List.mem_cons_self)
    | cons b g =>
      simp only [List.flatten_cons, List.cons_append, List.cons.injEq, List.append_eq_nil_iff,
        List.flatten_eq_nil_iff] at h
      obtain ⟨rfl, rfl, hrest⟩ := h
      rw [List.eq_nil_iff_forall_not_mem.mpr fun later hlater =>
        hne later (List.mem_cons_of_mem _ hlater) (hrest later hlater)]

/-- The record of an edit that its developer refused. -/
def rejectedRecord : TranscriptRecord where
  body := codePoints "sediment.rejected_edit"
  timeUnixNano := 1784000000000000000
  attributes := [(codePoints "session.id", .string (codePoints "s1")),
    (codePoints "tool_use_id", .string (codePoints "toolu_1")),
    (codePoints "tool_name", .string (codePoints "Write")),
    (codePoints "file_path", .string (codePoints "a.py")),
    (codePoints "proposed", .string (codePoints "x = 1")),
    (codePoints "agent", .string (codePoints "claude-code"))]

/-- What is sent of one refused edit. -/
def rejectedPayload : TranscriptPayload := ⟨none, [rejectedRecord]⟩

/-- A body has blanks behind its separators, which compact JSON does not. -/
theorem body_not_compact :
    ∃ request : DeliveryRequest,
      @prepareRequests (@otlpDestinations ServerUrls.asciiText ServerUrls.noAddresses)
        "http://localhost:4318" rejectedPayload.resource
        (rejectedPayload.logRecords.map TranscriptRecord.json) = .ok ([(request, 1)], 0) ∧
      request.destination = "http://localhost:4318/v1/logs" ∧
      request.body ≠ (envelope rejectedPayload.resource
        (rejectedPayload.logRecords.map TranscriptRecord.json)).write ⟨quoteText, id, id⟩ := by
  let _ : Destinations := @otlpDestinations ServerUrls.asciiText ServerUrls.noAddresses
  have hurl : Destinations.destination "http://localhost:4318" =
      some "http://localhost:4318/v1/logs" := by
    decide +kernel
  have hfits : fits rejectedPayload.resource rejectedRecord.json = true := by decide +kernel
  obtain ⟨prepared, oversized, hok, ⟨groups, hgroups, hflat, hnonempty⟩, -, hoversized⟩ :=
    prepareRequests_ok hurl rejectedPayload.resource [rejectedRecord.json]
  rw [List.filter_singleton, hfits] at hflat
  rw [List.countP_singleton, hfits] at hoversized
  rw [one_group hflat hnonempty] at hgroups
  obtain ⟨⟨request, n⟩, rfl, hrequest⟩ := List.map_eq_singleton_iff.mp hgroups
  simp only [Prod.mk.injEq] at hrequest
  obtain ⟨hdestination, hbody, rfl⟩ := hrequest
  refine ⟨request, by rw [hoversized] at hok; exact hok, hdestination, ?_⟩
  rw [hbody]
  decide +kernel

end Sediment.Proofs.TranscriptRequests

import Sediment.Base.Results
import Sediment.Proofs.DeliveryMaintenance

namespace Sediment.Proofs.DeliverySections
open Base Journal
open Sediment.Core Urls
open Cli.Delivery DeliveryIdentity DeliveryEntry DeliveryRoundTrip DeliveryEffects
open DeliveryMaintenance

section
variable {τ : Type} [Clock τ] [JsonBytes] [UnicodeText] [IpAddresses] [DatetimeReader] [Sha256]
  {runtime : Runtime} {final : Prop} {spared : List Char → Prop} {now : τ}

/-- In a directory of normal names the request of an entry is read from that entry. -/
theorem request_of_entry {d : Directory} {id : List Char} {h : Header τ} {r : DeliveryRequest}
    (hnormal : ∀ k, d.entries.get? k ≠ none → checkId runtime k = .ok ())
    (hh : entryHeader runtime d id = .ok h)
    (hr : request runtime.digits (entryFiles d) h = .ok r) :
    h.deliveryId = id ∧ r.deliveryId = id ∧
      ∃ file, d.entries.get? id = some file ∧ bodyOf file = r.body := by
  obtain ⟨file, -, -, hid⟩ := entryHeader_ok hh
  obtain ⟨file', hfile', hbody, hrid⟩ := request_ok hr
  rw [entryFiles_entryName] at hfile'
  have hself := checkId_ok (hnormal h.deliveryId (by simp [hfile']))
  have hsame : h.deliveryId = id := Except.ok.inj (hself.symm.trans hid)
  have hrsame : r.deliveryId = id := Except.ok.inj (hrid.symm.trans hid)
  rw [hsame] at hfile'
  exact ⟨hsame, hrsame, file', hfile', hbody.symm⟩

omit [Clock τ] [JsonBytes] in
theorem request_congr {files files' : List Char → Option Bytes} {h : Header τ}
    (hf : files' (entryName h.deliveryId) = files (entryName h.deliveryId)) :
    request runtime.digits files' h = request runtime.digits files h := by
  simp only [request, hf]

omit [JsonBytes] [UnicodeText] [IpAddresses] [DatetimeReader] [Sha256] in
theorem bodyOf_entryFile (hc : ClockLaws τ) (h : Header τ) (body : Bytes) :
    bodyOf (entryFile h body) = body := by
  have hprint := flatText_printable (fields_printable hc h)
  rw [bodyOf, entryFile, Header.encoded, (cut_line hprint body).2, List.tail_cons]

omit [Clock τ] [JsonBytes] in
/-- Behind a header another body than its own is refused. -/
theorem request_damaged {d : Directory} {h : Header τ} {file : Bytes}
    (hfile : d.entries.get? h.deliveryId = some file)
    (hsha : codes (Sha256.hexdigest (bodyOf file)) ≠ h.sha256) :
    request runtime.digits (entryFiles d) h = .error (.delivery .invalidRecord) := by
  rw [request, entryFiles_entryName, hfile]
  dsimp only
  split
  · rfl
  · exact if_pos (Or.inr hsha)

omit [Sha256] in
/-- The bytes that the headers count are those behind the first lines. -/
theorem bytes_counted {d : Directory} {headers : List (Header τ)}
    (hm : (names d.entries ".entry").mapM (entryHeader runtime d) = .ok headers) :
    headers.length = d.entries.entries.length ∧
      (headers.map Header.bytes).sum =
        (d.entries.values.map (fun file => (bodyOf file).length)).sum := by
  let size := fun id => (bodyOf ((d.entries.get? id).getD [])).length
  have hperm : (names d.entries ".entry").Perm d.entries.keys := sortedBy_perm _ _
  have hbytes : headers.map Header.bytes = (names d.entries ".entry").map size := by
    have hall := forall₂_of_mapM_ok hm
    clear hm hperm
    generalize names d.entries ".entry" = ids at hall ⊢
    induction hall with
    | nil => rfl
    | @cons id h ids hs hok _ ih =>
      obtain ⟨file, hfile, hlen, -⟩ := entryHeader_ok hok
      rw [List.map_cons, List.map_cons, ih]
      simp only [size, hfile, Option.getD_some, hlen]
  have hvalues : d.entries.keys.map size =
      d.entries.values.map (fun file => (bodyOf file).length) := by
    rw [Dict.keys, Dict.values, List.map_map, List.map_map]
    apply List.map_congr_left
    intro e he
    simp only [size, Function.comp_apply, d.entries.mem_entries_iff.mp he, Option.getD_some]
  constructor
  · rw [length_of_mapM_ok hm, hperm.length_eq, Dict.keys, List.length_map]
  · rw [hbytes, (hperm.map size).sum_eq, hvalues]

/-- A request that `enqueue` has room for fits. -/
theorem fits_published (hc : ClockLaws τ) {d : Directory} {r : DeliveryRequest}
    {headers : List (Header τ)}
    (hm : (names d.entries ".entry").mapM (entryHeader runtime d) = .ok headers)
    (hnew : d.entries.get? r.deliveryId = none)
    (hroom : ¬(maxActiveEntries ≤ headers.length ∨
      maxActiveBytes < (headers.map Header.bytes).sum + r.body.length)) :
    Fits (d.entries.set r.deliveryId (entryFile (headerFor r now) r.body)) := by
  obtain ⟨hcount, hsum⟩ := bytes_counted hm
  have hset : (d.entries.set r.deliveryId (entryFile (headerFor r now) r.body)).entries =
      d.entries.entries ++ [(r.deliveryId, entryFile (headerFor r now) r.body)] :=
    Dict.alterEntries_of_not_mem _ ((Dict.get?_eq_none_iff _).mp hnew)
  rw [not_or, not_le, not_lt, hcount, hsum] at hroom
  constructor
  · rw [hset, List.length_append, List.length_singleton]
    exact hroom.1
  · rw [Dict.values, hset, List.map_append, List.map_append, List.sum_append, List.map_singleton,
      List.map_singleton, List.sum_singleton, bodyOf_entryFile hc]
    exact hroom.2

/-- A file that is read as the request, wherever it stands under its name. -/
def ReadsAs (τ : Type) [Clock τ] (runtime : Runtime) (r : DeliveryRequest) (file : Bytes) : Prop :=
  ∀ d : Directory, d.entries.get? r.deliveryId = some file → ∃ h : Header τ,
    entryHeader runtime d r.deliveryId = .ok h ∧
      request runtime.digits (entryFiles d) h = .ok r

/-- What a request that was accepted with the answer has under its name. -/
structure Accepts (τ : Type) [Clock τ] (runtime : Runtime) (r : DeliveryRequest)
    (result : Disposition) (file : Bytes) : Prop where
  body : bodyOf file = r.body
  written : result.reason = .buffered → ∃ now : τ, file = entryFile (headerFor r now) r.body
  reads : result.reason = .alreadyBuffered → ReadsAs τ runtime r file

theorem readsAs_iff {d : Directory} {h : Header τ} {r original : DeliveryRequest} {file : Bytes}
    (hnormal : ∀ k, d.entries.get? k ≠ none → checkId runtime k = .ok ())
    (hfile : d.entries.get? r.deliveryId = some file)
    (hh : entryHeader runtime d r.deliveryId = .ok h)
    (hr : request runtime.digits (entryFiles d) h = .ok original) :
    ReadsAs τ runtime r file ↔ original = r := by
  constructor
  · intro hreads
    obtain ⟨h', hh', hr'⟩ := hreads d hfile
    rw [hh] at hh'
    cases hh'
    rw [hr] at hr'
    exact Except.ok.inj hr'
  · rintro rfl d' hfile'
    obtain ⟨hid, -, -⟩ := request_of_entry hnormal hh hr
    refine ⟨h, ?_, ?_⟩
    · rw [entryHeader_congr (hfile'.trans hfile.symm), hh]
    · rw [← hr]
      apply request_congr
      rw [hid, entryFiles_entryName, entryFiles_entryName, hfile, hfile']

/-- An `enqueue` answers for what it leaves in the directory. -/
theorem enqueueSection_spec (hc : ClockLaws τ) {d₀ : Directory} {r : DeliveryRequest}
    (hspared : ∀ id, spared id → Live runtime now d₀ id)
    (hid : uuid runtime.digits r.deliveryId = .ok r.deliveryId)
    (hnamed : ¬Live runtime now d₀ r.deliveryId →
      Named τ runtime r.deliveryId (entryFile (headerFor r now) r.body)) :
    Triple (Guard τ runtime final spared) (fun d => d = d₀) (enqueueSection runtime r now)
      (fun result d => result.status = .queued →
        ∃ file, d.entries.get? r.deliveryId = some file ∧ Accepts τ runtime r result file)
      (fun _ _ => True) := by
  refine Triple.bind ((maintenance_spec hspared).consequence (fun _ h => h) (fun _ _ h => h)
    (fun _ _ _ => trivial)) (fun _ => ?_)
  refine Triple.read (fun d hd => ?_)
  split
  · rename_i hcontains
    have hpresent := contains_names.mp hcontains
    obtain ⟨file, hfile⟩ := Option.ne_none_iff_exists'.mp hpresent
    refine Triple.bind (Q := fun h s => entryHeader runtime d r.deliveryId = .ok h ∧ s = d)
      ?_ (fun h => ?_)
    · exact Triple.lift (fun _ hok s hs => ⟨hok, hs.1⟩) (fun _ _ _ _ => trivial)
    refine Triple.bind (Q := fun original s => entryHeader runtime d r.deliveryId = .ok h ∧
      request runtime.digits (entryFiles d) h = .ok original ∧ s = d) ?_ (fun original => ?_)
    · exact Triple.lift (fun _ hok s hs => ⟨hs.1, hok, hs.2⟩) (fun _ _ _ _ => trivial)
    split
    · rename_i heq
      refine Triple.pure ?_
      rintro s ⟨hh, hr, rfl⟩ -
      have hreads := (readsAs_iff hd.normal hfile hh hr).mpr heq
      obtain ⟨-, -, file', hfile', hbody⟩ := request_of_entry hd.normal hh hr
      rw [hfile] at hfile'
      cases hfile'
      exact ⟨file, hfile, heq ▸ hbody, (fun h => by cases h), fun _ => hreads⟩
    · exact Triple.pure (fun _ _ h => by cases h)
  · rename_i habsent
    have hnew : d.entries.get? r.deliveryId = none := by
      by_contra hne
      exact habsent (contains_names.mpr hne)
    have hdead : ¬Live runtime now d₀ r.deliveryId :=
      fun hlive => hlive.present ((hd.spares _ hlive).symm.trans hnew)
    split
    · exact Triple.pure (fun _ _ h => by cases h)
    · rename_i hnoreceipt
      have hreceipt : d.receipts.get? r.deliveryId = none := by
        by_contra hne
        exact hnoreceipt (contains_names.mpr hne)
      refine Triple.bind (Q := fun headers s => (names d.entries ".entry").mapM
        (entryHeader runtime d) = .ok headers ∧ s = d) ?_ (fun headers => ?_)
      · exact Triple.lift (fun _ hok s hs => ⟨hok, hs.1⟩) (fun _ _ _ _ => trivial)
      split
      · refine Triple.bind (Q := fun _ _ => True) ?_
          (fun _ => Triple.pure (fun _ _ h => by cases h))
        refine Triple.caught (F := fun _ _ => True) ?_
        refine Triple.bind (Q := fun _ s => ∀ id, spared id → Live runtime now s id) ?_
          (fun _ => ?_)
        · apply receipt_spec
          · rintro s ⟨-, rfl⟩ - -
            exact hreceipt
          · exact fun _ _ _ => hid
          · exact fun hs => hdead (hspared _ hs)
          · exact declined_closes r.deliveryId rfl
          · rintro s ⟨-, rfl⟩ id hs
            refine (hd.live (hspared id hs)).closed ?_
            rintro rfl
            exact hdead (hspared _ hs)
        · intro s hs
          exact (maintenance_spec hs).consequence (fun _ h => h) (fun _ _ _ => trivial)
            (fun _ _ _ => trivial) s rfl
      · rename_i hroom
        refine Triple.bind (Q := fun _ s => s.entries.get? r.deliveryId =
          some (entryFile (headerFor r now) r.body)) ?_ (fun _ => ?_)
        · rintro s ⟨hm, rfl⟩
          refine ⟨⟨trivial, ⟨hnew, hreceipt, fits_published hc hm hnew hroom,
            hnamed hdead⟩, trivial⟩, ?_⟩
          change (s.entries.set _ _).get? _ = _
          rw [Dict.get?_set, if_pos rfl]
        · refine Triple.pure (fun s hs _ => ⟨_, hs, ?_⟩)
          exact ⟨bodyOf_entryFile hc _ _, fun _ => ⟨now, rfl⟩, (fun h => by cases h)⟩

/-- What `enqueue` publishes is named by its identity. -/
theorem validated_named (hc : ClockLaws τ) {r v : DeliveryRequest}
    (h : validated runtime.digits r = .ok v) (now : τ) :
    Named τ runtime v.deliveryId (entryFile (headerFor v now) v.body) := by
  obtain ⟨-, hbody, hlen, -, hinst, hid⟩ := prepare_ok h
  obtain ⟨hlength, hchars⟩ := uuid_text hid
  constructor
  · have hlower : ∀ c, LowerHex c ∨ c = '-' → (isLowerHex c.toNat || c == '-') = true := by
      rintro c (⟨n, hn, rfl⟩ | rfl)
      · interval_cases n <;> decide
      · decide
    have hhyphened : isHyphened v.deliveryId = true := by
      rw [isHyphened, hlength, List.all_eq_true.mpr (fun c hc => hlower c (hchars c hc))]
      rfl
    rw [checkId, if_pos hhyphened, uuid_idem hid]
    simp only [if_true]
  · intro h' hh
    refine headerOf_published hc (h := headerFor v now) ?_ (instant_text hinst).2.2
      (reread_codes _) hh
    change v.body.length ≤ maxEntryBytes
    rw [hbody]
    exact hlen

/-- Entries in their normal form, without receipts beside them. -/
structure Clean (runtime : Runtime) (d : Directory) : Prop where
  alone : ∀ id, d.entries.get? id ≠ none → d.receipts.get? id = none
  normal : ∀ id, d.entries.get? id ≠ none → checkId runtime id = .ok ()

omit [JsonBytes] [UnicodeText] [IpAddresses] [DatetimeReader] [Sha256] in
theorem Clean.closed {d : Directory} (h : Clean runtime d) (id : List Char) (data : Bytes) :
    Clean runtime (closed d id data) := by
  constructor
  · intro k hk
    obtain ⟨hne, hk⟩ := get?_without_ne_none.mp hk
    change (d.receipts.set id data).get? k = none
    rw [Dict.get?_set, if_neg hne]
    exact h.alone k hk
  · exact fun k hk => h.normal k (get?_without_ne_none.mp hk).2

omit [Sha256] in
theorem candidate_spec {at' : List Char → τ} (hspared : ∀ id, ¬spared id) (id : List Char) :
    Triple (Guard τ runtime final spared) (Clean runtime) (candidate runtime at' id)
      (fun _ => Clean runtime) (fun _ _ => True) := by
  refine Triple.read (fun d hd => ?_)
  refine Triple.bind (Q := fun h s => entryHeader runtime d id = .ok h ∧ s = d) ?_ (fun h => ?_)
  · exact Triple.lift (fun _ hok s hs => ⟨hok, hs.1⟩) (fun _ _ _ _ => trivial)
  split
  · exact Triple.pure (fun s hs => hs.2 ▸ hd)
  · refine Triple.bind (Q := fun _ => Clean runtime) ?_ (fun _ => Triple.pure (fun _ hs => hs))
    apply receipt_spec
    · rintro s ⟨hh, rfl⟩ - hnormal
      obtain ⟨file, hfile, -, hid⟩ := entryHeader_ok hh
      have hsame : h.deliveryId = id := Except.ok.inj (hnormal.symm.trans hid)
      exact hd.alone h.deliveryId (by rw [hsame, hfile]; exact Option.some_ne_none file)
    · rintro s ⟨hh, rfl⟩ hneat
      obtain ⟨file, hfile, -⟩ := entryHeader_ok hh
      rw [neat_header hneat hh]
      exact checkId_ok (hd.normal id (by rw [hfile]; exact Option.some_ne_none file))
    · exact hspared _
    · exact declined_closes h.deliveryId rfl
    · rintro s ⟨-, rfl⟩
      exact hd.closed _ _
  · exact Triple.fail (fun _ _ => trivial)

omit [Sha256] in
theorem candidates_spec {at' : List Char → τ} (hspared : ∀ id, ¬spared id) (d : Directory) :
    Triple (Guard τ runtime final spared) (fun s => s = d) (candidates runtime now at')
      (fun _ _ => True) (fun _ _ => True) := by
  refine Triple.bind (Q := fun _ => Clean runtime) ?_ (fun _ => ?_)
  · exact (maintenance_spec (fun id hs => absurd hs (hspared id))).consequence (fun _ hs => hs)
      (fun _ _ hs => ⟨hs.alone, hs.normal⟩) (fun _ _ _ => trivial)
  refine Triple.read (fun d' _ => ?_)
  refine Triple.bind (Q := fun _ _ => True) ?_ (fun _ => Triple.pure (fun _ _ => trivial))
  exact (Triple.collect (I := fun _ _ => Clean runtime) (fun x _ _ => candidate_spec hspared x) _
    []).consequence (fun _ hs => hs.2) (fun _ _ _ => trivial) (fun _ _ _ => trivial)

theorem attempt_spec {retryBlocked : Bool} {h : Header τ} {t₀ t₁ t₂ : τ} (d : Directory)
    (halone : final → d.entries.get? h.deliveryId ≠ none → d.receipts.get? h.deliveryId = none)
    (hspared : ∀ id, ¬spared id) :
    Triple (Guard τ runtime final spared) (fun s => s = d) (attempt runtime retryBlocked h t₀ t₁ t₂)
      (fun found _ => ∀ s r, found = some (s, r) →
        uuid runtime.digits r.deliveryId = .ok r.deliveryId) (fun _ _ => True) := by
  refine Triple.read (fun d' hd' => ?_)
  subst hd'
  split
  · exact Triple.pure (fun _ _ _ _ h => by cases h)
  · rename_i hcontains
    have hpresent := contains_names.mp (not_not.mp hcontains)
    have hclose : ∀ (reason : Reason) (t : τ), plainReason .declined reason = true →
        Triple (Guard τ runtime final spared)
        (fun s => s = d' ∧ s = d') (receipt (disposed h.deliveryId .declined reason) t >>=
          fun _ => pure (none : Option (AttemptState τ × DeliveryRequest)))
        (fun found _ => ∀ s r, found = some (s, r) →
          uuid runtime.digits r.deliveryId = .ok r.deliveryId) (fun _ _ => True) := by
      intro reason t hreason
      refine Triple.bind (Q := fun _ _ => True) ?_
        (fun _ => Triple.pure (fun _ _ _ _ h => by cases h))
      apply receipt_spec
      · rintro s ⟨rfl, -⟩ hfinal -
        exact halone hfinal hpresent
      · rintro s ⟨rfl, -⟩ hneat
        obtain ⟨file, hfile⟩ := Option.ne_none_iff_exists'.mp hpresent
        exact checkId_ok (hneat h.deliveryId file hfile).normal
      · exact hspared _
      · exact declined_closes h.deliveryId hreason
      · exact fun _ _ => trivial
    split
    · exact hclose _ _ rfl
    split
    · exact hclose _ _ rfl
    · exact Triple.fail (fun _ _ => trivial)
    split
    · exact Triple.pure (fun _ _ _ _ h => by cases h)
    split
    · exact Triple.pure (fun _ _ _ _ h => by cases h)
    split
    · exact hclose _ _ rfl
    · exact Triple.fail (fun _ _ => trivial)
    · rename_i r hr
      refine Triple.pure (fun _ _ s' r' hfound => ?_)
      cases hfound
      obtain ⟨-, -, -, hid⟩ := request_ok hr
      exact uuid_idem hid

omit [Sha256] in
theorem record_spec {h : Header τ} {s : AttemptState τ} {result : Disposition} {now : τ}
    {draw : Nat} (d : Directory)
    (halone : final → d.entries.get? h.deliveryId ≠ none →
      d.receipts.get? result.deliveryId = none)
    (hname : uuid runtime.digits result.deliveryId = .ok result.deliveryId)
    (hspared : ∀ id, ¬spared id)
    (hcloses : result.status.terminal = true → Closes runtime.depth result) :
    Triple (Guard τ runtime final spared) (fun s => s = d) (record h s result now draw)
      (fun _ _ => True) (fun _ _ => True) := by
  refine Triple.read (fun d' hd' => ?_)
  subst hd'
  split
  · exact Triple.pure (fun _ _ => trivial)
  rename_i hcontains
  have hpresent := contains_names.mp (not_not.mp hcontains)
  split
  · rename_i hterminal
    apply receipt_spec
    · rintro s ⟨rfl, -⟩ hfinal -
      exact halone hfinal hpresent
    · exact fun _ _ _ => hname
    · exact hspared _
    · exact hcloses hterminal
    · exact fun _ _ => trivial
  · rintro s ⟨rfl, -⟩
    exact ⟨⟨trivial, hpresent, trivial⟩, trivial⟩

/-- The request that is read from a file alone under its name. -/
def requestIn (τ : Type) [Clock τ] (runtime : Runtime) (id : List Char) (file : Bytes) :
    Except Failure DeliveryRequest :=
  let d : Directory := ⟨Dict.empty.set id file, .empty, .empty, 0⟩
  (entryHeader runtime d id : Except Failure (Header τ)).bind (request runtime.digits (entryFiles d))

/-- In a directory of normal names nothing beside an entry is read for its request. -/
theorem requestIn_eq {d : Directory} {id : List Char} {file : Bytes} {h : Header τ}
    (hnormal : ∀ k, d.entries.get? k ≠ none → checkId runtime k = .ok ())
    (hfile : d.entries.get? id = some file) (hh : entryHeader runtime d id = .ok h) :
    requestIn τ runtime id file = request runtime.digits (entryFiles d) h := by
  have halone : ∀ k, ((Dict.empty : Dict (List Char) Bytes).set id file).get? k =
      if k = id then some file else none := fun k => Dict.get?_set _ _ _ k
  have hself : ((Dict.empty : Dict (List Char) Bytes).set id file).get? id = d.entries.get? id := by
    rw [halone, if_pos rfl, hfile]
  have hsame : (entryHeader runtime ⟨Dict.empty.set id file, .empty, .empty, 0⟩ id :
      Except Failure (Header τ)) = .ok h := (entryHeader_congr hself).trans hh
  unfold requestIn
  dsimp only
  rw [hsame]
  apply request_congr
  rw [entryFiles_entryName, entryFiles_entryName, halone]
  by_cases hid : h.deliveryId = id
  · rw [if_pos hid, hid, hfile]
  · rw [if_neg hid]
    by_contra hne
    obtain ⟨-, -, -, hname⟩ := entryHeader_ok hh
    have hown := checkId_ok (hnormal h.deliveryId (Ne.symm hne))
    exact hid (Except.ok.inj (hown.symm.trans hname))

/-- What `enqueue` answers for an identity that has a live entry: whether it is the same request,
or what kept the call from finding that out. -/
def sameIdAnswer (r : DeliveryRequest) : Except Failure DeliveryRequest → Disposition
  | .ok original =>
    if original = r then disposed r.deliveryId .queued .alreadyBuffered
    else disposed r.deliveryId .declined .identityConflict
  | .error e => disposed r.deliveryId .declined (failureReason e)

theorem enqueue_answers {d : Directory} {r : DeliveryRequest} {file : Bytes}
    (hfile : d.entries.get? r.deliveryId = some file) (hlive : Live runtime now d r.deliveryId) :
    (enqueued r (enqueueSection runtime r now d).2 : Place τ) =
      .returned r (sameIdAnswer r ((maintenance runtime now d).2.bind
        (fun _ => requestIn τ runtime r.deliveryId file))) := by
  rw [enqueueSection, bind_result]
  cases hm : (maintenance runtime now d).2 with
  | error e => rfl
  | ok _ =>
    have hmaintained := (maintenance_exact d).2 hm
    generalize after d (maintenance runtime now d).1 = d' at hmaintained
    have hkept : d'.entries.get? r.deliveryId = some file :=
      (hmaintained.spares _ hlive).trans hfile
    have hcontains : d'.entries.contains r.deliveryId = true :=
      contains_names.mpr (by rw [hkept]; exact Option.some_ne_none file)
    obtain ⟨h, hh, -⟩ := (hmaintained.live hlive).recent
    have hreads := requestIn_eq hmaintained.normal hkept hh
    simp only [Except.bind]
    rw [read_silent, if_pos hcontains, lift_silent hh, hreads]
    cases hr : request runtime.digits (entryFiles d') h with
    | error e =>
      rw [bind_result]
      rfl
    | ok original =>
      rw [lift_silent rfl, sameIdAnswer]
      split <;> rfl

/-- While an `enqueue` runs for an identity that has a live entry, and wherever it crashes, that
entry keeps its bytes; the call answers for what is read from them. -/
theorem same_identity_unchanged (hc : ClockLaws τ) {d : Directory} {r : DeliveryRequest}
    {file : Bytes} (hfile : d.entries.get? r.deliveryId = some file)
    (hlive : Live runtime now d r.deliveryId) :
    (∀ n, (after d ((enqueueSection runtime r now d).1.take n)).entries.get? r.deliveryId =
      some file) ∧
    (enqueued r (enqueueSection runtime r now d).2 : Place τ) =
      .returned r (sameIdAnswer r ((maintenance runtime now d).2.bind
        (fun _ => requestIn τ runtime r.deliveryId file))) := by
  refine ⟨?_, enqueue_answers hfile hlive⟩
  have hspec : Triple (Guard τ runtime False (fun id => id = r.deliveryId)) (fun s => s = d)
      (enqueueSection runtime r now) _ _ := enqueueSection_spec hc (fun _ hid => hid ▸ hlive)
        hlive.identity (fun hdead => absurd hlive hdead)
  obtain ⟨hallowed, -⟩ := hspec d rfl
  intro n
  refine (hallowed.take n).keeps (I := fun s => s.entries.get? r.deliveryId = some file) ?_ hfile
  intro s op hguard hs
  rcases hguard.entry hs with hstay | ⟨-, hspared, -⟩
  · exact hstay
  · exact absurd rfl hspared

end

section
local instance : UnicodeText := ServerUrls.asciiText
local instance : IpAddresses := ServerUrls.noAddresses
local instance : DatetimeReader := isoReader
local instance : Clock Seconds := secondsClock
local instance : Sha256 := bodyDigests
local instance : JsonBytes := noBytes

def soleEntry (file : Bytes) : Directory :=
  ⟨Dict.empty.set preparedRequest.deliveryId file, .empty, .empty, 0⟩

theorem sole_file (file : Bytes) :
    (soleEntry file).entries.get? preparedRequest.deliveryId = some file :=
  (Dict.get?_set _ _ _ _).trans (if_pos rfl)

theorem prepared_validated :
    validated plainRuntime.digits preparedRequest = .ok preparedRequest := by
  decide +kernel

theorem sole_kept {body : Bytes} (hbody : body.length = someBody.length) :
    Kept plainRuntime lateTime
      (soleEntry (entryFile (headerFor preparedRequest lateTime) body)) := by
  have hfile := sole_file (entryFile (headerFor preparedRequest lateTime) body)
  have hsole : ∀ id, (soleEntry (entryFile (headerFor preparedRequest lateTime) body)).entries.get?
      id ≠ none → id = preparedRequest.deliveryId := by
    intro id hid
    by_contra hne
    exact hid ((Dict.get?_set _ _ _ _).trans (if_neg hne))
  refine ⟨fun id hid => ?_, fun id hid => ?_, rfl, Nat.zero_le _, fun id hid => absurd rfl hid⟩
  · obtain rfl := hsole id hid
    exact ⟨hid, rfl, _, live_header hbody hfile, by decide +kernel⟩
  · exact hsole id hid ▸ (validated_named secondsClock_laws prepared_validated lateTime).normal

/-- The header of one body with another behind it. -/
def damagedEntry : Bytes := entryFile (headerFor preparedRequest lateTime) otherBody

/-- The entry stays while an `enqueue` runs that gives the answer. -/
def Answers (file : Bytes) (r : DeliveryRequest) (status : Status) (reason : Reason) : Prop :=
  (∀ n, (after (soleEntry file) ((enqueueSection plainRuntime r lateTime
    (soleEntry file)).1.take n)).entries.get? r.deliveryId = some file) ∧
  (enqueued r (enqueueSection plainRuntime r lateTime (soleEntry file)).2 : Place Seconds) =
    .returned r (disposed r.deliveryId status reason)

/-- The same request again, another one of its identity, and the same one where the entry is
damaged. -/
theorem same_identity_answered :
    Answers liveEntry preparedRequest .queued .alreadyBuffered ∧
    Answers liveEntry { preparedRequest with body := otherBody } .declined .identityConflict ∧
    Answers damagedEntry preparedRequest .declined .invalidRecord := by
  have hanswers : ∀ {body : Bytes} {r : DeliveryRequest} {status : Status} {reason : Reason}
      {found : Except Failure DeliveryRequest}, body.length = someBody.length →
      r.deliveryId = preparedRequest.deliveryId →
      requestIn Seconds plainRuntime preparedRequest.deliveryId
        (entryFile (headerFor preparedRequest lateTime) body) = found →
      sameIdAnswer r found = disposed r.deliveryId status reason →
      Answers (entryFile (headerFor preparedRequest lateTime) body) r status reason := by
    intro body r status reason found hbody hid hfound hanswer
    have hkept := sole_kept hbody
    have hfile : (soleEntry (entryFile (headerFor preparedRequest lateTime) body)).entries.get?
        r.deliveryId = some (entryFile (headerFor preparedRequest lateTime) body) :=
      hid ▸ sole_file _
    have hpresent : (soleEntry (entryFile (headerFor preparedRequest lateTime) body)).entries.get?
        r.deliveryId ≠ none := by
      rw [hfile]
      exact Option.some_ne_none _
    obtain ⟨hstays, hreturned⟩ :=
      same_identity_unchanged secondsClock_laws hfile (hkept.live r.deliveryId hpresent)
    refine ⟨hstays, hreturned.trans ?_⟩
    simp only [hkept.maintenance, Except.bind, hid, hfound, hanswer]
  have hsound : requestIn Seconds plainRuntime preparedRequest.deliveryId liveEntry =
      .ok preparedRequest := by
    have hfile := sole_file liveEntry
    have hrequest := request_written secondsClock_laws live_readable rfl rfl
      ((entryFiles_entryName _ _).trans hfile)
    exact (requestIn_eq (sole_kept rfl).normal hfile (live_header rfl hfile)).trans
      (hrequest.trans (congrArg (Except.mapError Failure.delivery) prepared_validated))
  have hdamaged : requestIn Seconds plainRuntime preparedRequest.deliveryId damagedEntry =
      .error (.delivery .invalidRecord) := by
    have hlen : otherBody.length = someBody.length := rfl
    have hfile := sole_file damagedEntry
    refine (requestIn_eq (sole_kept hlen).normal hfile (live_header hlen hfile)).trans
      (request_damaged hfile ?_)
    rw [damagedEntry, bodyOf_entryFile secondsClock_laws]
    decide +kernel
  have hother : preparedRequest ≠ { preparedRequest with body := otherBody } := by
    intro heq
    exact absurd (congrArg DeliveryRequest.body heq) (by decide)
  refine ⟨hanswers rfl rfl hsound ?_, hanswers rfl rfl hsound ?_, hanswers rfl rfl hdamaged rfl⟩
  · rw [sameIdAnswer, if_pos rfl]
  · rw [sameIdAnswer, if_neg hother]

end

end Sediment.Proofs.DeliverySections

import Sediment.Proofs.ContextRetrieval

namespace Sediment.Proofs.ContextDiscovery
open Sediment.Base Sediment.Core Sediment.Derive
open Sediment.Proofs.ContextCandidates Sediment.Proofs.ContextRetrieval

variable {tokens : Finset (List Char)} {cs ds : List ContextRetrievalItem}
  {stream seen : List (String × EvidenceReadItem)} {s : DiscoveryState} {sessionId : String}

theorem bestMatch_append (cs : List ContextRetrievalItem) (c : ContextRetrievalItem) :
    bestMatch (cs ++ [c]) = some (better c (bestMatch cs)) := by
  rw [bestMatch, List.foldl_append]
  rfl

theorem bestMatch_spec (cs : List ContextRetrievalItem) :
    (cs = [] ∧ bestMatch cs = none) ∨
      ∃ b ∈ cs, bestMatch cs = some b ∧ ∀ c ∈ cs, rankKey b ≤ rankKey c := by
  induction cs using List.reverseRecOn with
  | nil => exact Or.inl ⟨rfl, rfl⟩
  | append_singleton cs c ih =>
    right
    rw [bestMatch_append]
    rcases ih with ⟨rfl, hb⟩ | ⟨b, hm, hb, hle⟩
    · rw [hb]
      exact ⟨c, by simp, rfl, by simp⟩
    · rw [hb, better]
      split
      · rename_i hlt
        refine ⟨c, by simp, rfl, fun d hd => ?_⟩
        rcases List.mem_append.mp hd with hd | hd
        · exact le_of_lt (lt_of_lt_of_le hlt (hle d hd))
        · rw [List.mem_singleton.mp hd]
      · rename_i hge
        refine ⟨b, List.mem_append_left _ hm, rfl, fun d hd => ?_⟩
        rcases List.mem_append.mp hd with hd | hd
        · exact hle d hd
        · rw [List.mem_singleton.mp hd]
          exact not_lt.mp hge

theorem bestMatch_perm (h : cs.Perm ds)
    (hr : ∀ c ∈ ds, ∀ d ∈ ds, rankKey c = rankKey d → c = d) : bestMatch cs = bestMatch ds := by
  rcases bestMatch_spec cs with ⟨rfl, hb⟩ | ⟨b, hm, hb, hle⟩
  · rw [List.nil_perm.mp h]
  · rcases bestMatch_spec ds with ⟨rfl, -⟩ | ⟨b', hm', hb', hle'⟩
    · exact absurd (h.mem_iff.mp hm) (by simp)
    · have hle := hle b' (h.mem_iff.mpr hm')
      have hge := hle' b (h.mem_iff.mp hm)
      rw [hb, hb', hr b (h.mem_iff.mp hm) b' hm' (le_antisymm hle hge)]

/-- The parts of one Session, in the order they were read. -/
def ofSession (sessionId : String) (stream : List (String × EvidenceReadItem)) :
    List EvidenceReadItem :=
  (stream.filter (fun entry => entry.1 = sessionId)).map Prod.snd

abbrev matched (tokens : Finset (List Char)) (items : List EvidenceReadItem) :
    List ContextRetrievalItem :=
  candidates tokens .unmatchedPart items

theorem matched_append (items items' : List EvidenceReadItem) :
    matched tokens (items ++ items') = matched tokens items ++ matched tokens items' :=
  candidates_append items items'

theorem ofSession_same (sessionId : String) (item : EvidenceReadItem) :
    ofSession sessionId (seen ++ [(sessionId, item)]) = ofSession sessionId seen ++ [item] := by
  simp [ofSession, List.filter_append]

theorem ofSession_other {other : String} (h : sessionId ≠ other) (item : EvidenceReadItem) :
    ofSession other (seen ++ [(sessionId, item)]) = ofSession other seen := by
  simp [ofSession, List.filter_append, h]

/-- The state of the stream, in terms of the parts read so far. -/
structure Followed (tokens : Finset (List Char)) (found : List String)
    (seen : List (String × EvidenceReadItem)) (s : DiscoveryState) : Prop where
  keys : ∀ sessionId ∈ found, (s.sessions.get? sessionId).isSome
  state : ∀ sessionId state, s.sessions.get? sessionId = some state →
    state.count = (matched tokens (ofSession sessionId seen)).length ∧
      state.best = bestMatch (matched tokens (ofSession sessionId seen))
  scanned : s.scannedParts = seen.length
  matchedParts : s.matchedParts = (matched tokens (seen.map Prod.snd)).length
  skipped : ∀ r, s.skipped r =
    (seen.map Prod.snd).countP (fun item => declined tokens .unmatchedPart item = some r)

theorem followed_declined {found : List String} {item : EvidenceReadItem} {r : ContextSkipReason}
    (h : Followed tokens found seen s) (hr : candidate item tokens .unmatchedPart = .error r) :
    Followed tokens found (seen ++ [(sessionId, item)])
      { s with scannedParts := s.scannedParts + 1, skipped := s.skipped.add r 1 } := by
  obtain ⟨hc, hd⟩ := candidates_error hr
  refine ⟨h.keys, fun id state hs => ?_, by simp [h.scanned], ?_, fun r' => ?_⟩
  · have hmatched : matched tokens (ofSession id (seen ++ [(sessionId, item)])) =
        matched tokens (ofSession id seen) := by
      by_cases hid : sessionId = id
      · subst hid
        rw [ofSession_same, matched_append, matched, matched, hc, List.append_nil]
      · rw [ofSession_other hid]
    rw [hmatched]
    exact h.state id state hs
  · rw [List.map_append, matched, candidates_append, List.map_cons, List.map_nil, hc,
      List.append_nil]
    exact h.matchedParts
  · simp only [Skipped.add, Skipped.set, Function.update_apply, List.map_append, List.map_cons,
      List.map_nil, List.countP_append, List.countP_cons, List.countP_nil, hd, Option.some.injEq,
      decide_eq_true_eq]
    by_cases he : r' = r
    · simp [he, h.skipped r]
    · simp [he, Ne.symm he, h.skipped r']

theorem followed_matched {found : List String} {item : EvidenceReadItem}
    {c : ContextRetrievalItem} {state : SessionState} {size stateBytes : Nat}
    (h : Followed tokens found seen s) (hs : s.sessions.get? sessionId = some state)
    (hc : candidate item tokens .unmatchedPart = .ok c) :
    Followed tokens found (seen ++ [(sessionId, item)])
      { s with
        scannedParts := s.scannedParts + 1
        sessions := s.sessions.set sessionId
          ⟨state.count + 1, some (better c state.best), size⟩
        matchedParts := s.matchedParts + 1
        stateBytes } := by
  obtain ⟨hcs, hd⟩ := candidates_ok hc
  obtain ⟨hcount, hbest⟩ := h.state _ _ hs
  refine ⟨fun id hid => ?_, fun id state' hst => ?_, by simp [h.scanned], ?_, fun r => ?_⟩
  · simp only [Dict.get?_set]
    split
    · rfl
    · exact h.keys id hid
  · simp only [Dict.get?_set] at hst
    split at hst
    · rename_i hid
      subst hid
      cases hst
      rw [ofSession_same, matched, candidates_append, hcs, bestMatch_append, List.length_append,
        hcount, hbest]
      exact ⟨rfl, rfl⟩
    · rename_i hid
      rw [ofSession_other (Ne.symm hid)]
      exact h.state id state' hst
  · rw [List.map_append, matched, candidates_append, List.map_cons, List.map_nil, hcs,
      List.length_append]
    exact congrArg (· + 1) h.matchedParts
  · simp [h.skipped r, List.countP_append, hd]

section
variable [DatetimeJson]

theorem discoverStep_followed {found : List String} {item : EvidenceReadItem}
    (h : Followed tokens found seen s) (hid : sessionId ∈ found) :
    (∃ e, e = stateLimit ∧ discoverStep tokens s (sessionId, item) = .error e) ∨
      ∃ s', discoverStep tokens s (sessionId, item) = .ok s' ∧
        Followed tokens found (seen ++ [(sessionId, item)]) s' := by
  obtain ⟨state, hs⟩ := Option.isSome_iff_exists.mp (h.keys sessionId hid)
  simp only [discoverStep, hs]
  cases hc : candidate item tokens .unmatchedPart with
  | error r => exact Or.inr ⟨_, rfl, followed_declined h hc⟩
  | ok c =>
    dsimp only
    rcases stateEncodingSize_cases (item_finite hc) with he | ⟨size, he⟩
    · simp only [he, error_bind]
      exact Or.inl ⟨_, rfl, rfl⟩
    · simp only [he, ok_bind]
      unfold checkStateBytes
      split
      · exact Or.inl ⟨_, rfl, rfl⟩
      · exact Or.inr ⟨_, rfl, followed_matched h hs hc⟩

end

variable (tokens) in
/-- Every found Session starts without a match. -/
theorem followed_nil (found : List ContextScanSession) (stateBytes : Nat) :
    Followed tokens (found.map ContextScanSession.sessionId) []
      { sessions := found.foldl (fun d session => d.set session.sessionId {}) Dict.empty
        stateBytes } := by
  have hget : ∀ (rest : List ContextScanSession) (d : Dict String SessionState) (id : String),
      (rest.foldl (fun d session => d.set session.sessionId {}) d).get? id =
        if id ∈ rest.map ContextScanSession.sessionId then some {} else d.get? id := by
    intro rest
    induction rest with
    | nil => simp
    | cons session rest ih =>
      intro d id
      rw [List.foldl_cons, ih, Dict.get?_set]
      by_cases h : id ∈ rest.map ContextScanSession.sessionId
      · simp [h]
      · by_cases he : id = session.sessionId <;> simp [h, he]
  refine ⟨fun id hid => by simp [hget, hid], fun id state hst => ?_, rfl, rfl, fun r => rfl⟩
  simp only [hget] at hst
  split at hst <;> cases hst
  exact ⟨rfl, rfl⟩

def unmatched (best : Option ContextRetrievalItem) (commitMatch : Option ContextCommitMatch) :
    Bool :=
  best.isNone ∧ commitMatch.isNone

/-- The candidate a Session gives, with the given parts in it. -/
def sessionCandidate (tokens : Finset (List Char)) (sessionId : String)
    (commitMatch : Option ContextCommitMatch) (items : List EvidenceReadItem) :
    Option ContextDiscoveryItem :=
  let best := bestMatch (matched tokens items)
  if unmatched best commitMatch then none
  else some (discoveryItem sessionId (matched tokens items).length best commitMatch)

def unmatchedCount (n : Nat) (r : ContextSkipReason) : Nat :=
  if r = .unmatchedSession then n else 0

theorem add_unmatched (skipped : Skipped) (n : Nat) (r : ContextSkipReason) :
    (skipped.add .unmatchedSession 1) r + unmatchedCount n r =
      skipped r + unmatchedCount (n + 1) r := by
  by_cases hr : r = .unmatchedSession
  · subst hr
    simp only [Skipped.add, Skipped.set, Function.update_self, unmatchedCount, if_true]
    omega
  · simp [Skipped.add, Skipped.set, unmatchedCount, hr]

theorem foundStep_eq {found : List String} (h : Followed tokens found stream s)
    {x : ContextScanSession} (hx : x.sessionId ∈ found) (t : Ranked) :
    foundStep s.sessions t x =
      match sessionCandidate tokens x.sessionId x.commitMatch (ofSession x.sessionId stream) with
      | none => { t with skipped := t.skipped.add .unmatchedSession 1 }
      | some c => { t with candidates := t.candidates ++ [c] } := by
  obtain ⟨state, hs⟩ := Option.isSome_iff_exists.mp (h.keys x.sessionId hx)
  obtain ⟨hcount, hbest⟩ := h.state _ _ hs
  simp only [foundStep, hs, Option.getD_some, sessionCandidate, unmatched, hcount, hbest,
    decide_eq_true_eq]
  split <;> rfl

theorem found_run {found : List String} (h : Followed tokens found stream s)
    (sessions : List ContextScanSession) (hf : ∀ x ∈ sessions, x.sessionId ∈ found) (t : Ranked) :
    (sessions.foldl (foundStep s.sessions) t).candidates = t.candidates ++
        sessions.filterMap (fun x =>
          sessionCandidate tokens x.sessionId x.commitMatch (ofSession x.sessionId stream)) ∧
      ∀ r, (sessions.foldl (foundStep s.sessions) t).skipped r = t.skipped r +
        unmatchedCount (sessions.countP (fun x => (sessionCandidate tokens x.sessionId
          x.commitMatch (ofSession x.sessionId stream)).isNone)) r := by
  induction sessions generalizing t with
  | nil => simp [unmatchedCount]
  | cons x sessions ih =>
    have ih := ih (fun y hy => hf y (List.mem_cons_of_mem _ hy))
    rw [List.foldl_cons, foundStep_eq h (hf x (by simp)), List.filterMap_cons, List.countP_cons]
    cases sessionCandidate tokens x.sessionId x.commitMatch (ofSession x.sessionId stream) with
    | none =>
      obtain ⟨hc, hk⟩ := ih { t with skipped := t.skipped.add .unmatchedSession 1 }
      exact ⟨hc, fun r => (hk r).trans (add_unmatched _ _ r)⟩
    | some c =>
      obtain ⟨hc, hk⟩ := ih { t with candidates := t.candidates ++ [c] }
      exact ⟨by simp [hc], hk⟩

theorem sessionStep_eq (s : Discovered) (x : ContextDiscoverySession) :
    sessionStep tokens s x =
      let skipped := (x.items.foldl (scanStep tokens .unmatchedPart) { skipped := s.skipped }).skipped
      let s := { s with
        scannedParts := s.scannedParts + x.items.length
        matchedParts := s.matchedParts + (matched tokens x.items).length
        skipped }
      match sessionCandidate tokens x.sessionId x.commitMatch x.items with
      | none => { s with skipped := skipped.add .unmatchedSession 1 }
      | some c => { s with candidates := s.candidates ++ [c] } := by
  obtain ⟨hc, -⟩ := scan_run tokens .unmatchedPart
    { skipped := s.skipped } x.items
  rw [List.nil_append] at hc
  have hnone : (bestMatch (matched tokens x.items)).isNone = decide (matched tokens x.items = []) := by
    rcases bestMatch_spec (matched tokens x.items) with ⟨h, hb⟩ | ⟨b, hm, hb, -⟩
    · simp [h, bestMatch]
    · simp [hb, List.ne_nil_of_mem hm]
  simp only [sessionStep, hc, sessionCandidate, unmatched, hnone, decide_eq_true_eq]
  split <;> rfl

/-- What the loop over the Sessions gathers. -/
structure Gathered (tokens : Finset (List Char)) (sessions : List ContextDiscoverySession)
    (s : Discovered) : Prop where
  candidates : s.candidates = sessions.filterMap (fun x =>
    sessionCandidate tokens x.sessionId x.commitMatch x.items)
  scanned : s.scannedParts = (sessions.flatMap ContextDiscoverySession.items).length
  matchedParts : s.matchedParts =
    (matched tokens (sessions.flatMap ContextDiscoverySession.items)).length
  skipped : ∀ r, s.skipped r = (sessions.flatMap ContextDiscoverySession.items).countP (fun item =>
      declined tokens .unmatchedPart item = some r) +
    unmatchedCount (sessions.countP (fun x =>
      (sessionCandidate tokens x.sessionId x.commitMatch x.items).isNone)) r

theorem gathered_step {sessions : List ContextDiscoverySession} {s : Discovered}
    (h : Gathered tokens sessions s) (x : ContextDiscoverySession) :
    Gathered tokens (sessions ++ [x]) (sessionStep tokens s x) := by
  obtain ⟨-, hk⟩ := scan_run tokens .unmatchedPart
    { skipped := s.skipped } x.items
  rw [sessionStep_eq]
  have hitems : (sessions ++ [x]).flatMap ContextDiscoverySession.items =
      sessions.flatMap ContextDiscoverySession.items ++ x.items := by simp
  have hmatched : s.matchedParts + (matched tokens x.items).length =
      (matched tokens ((sessions ++ [x]).flatMap ContextDiscoverySession.items)).length := by
    rw [hitems, matched_append, List.length_append, h.matchedParts]
  have hscanned : s.scannedParts + x.items.length =
      ((sessions ++ [x]).flatMap ContextDiscoverySession.items).length := by
    rw [hitems, List.length_append, h.scanned]
  cases hc : sessionCandidate tokens x.sessionId x.commitMatch x.items with
  | none =>
    refine ⟨by simp [h.candidates, hc], hscanned, hmatched, fun r => ?_⟩
    have hadd := add_unmatched (x.items.foldl (scanStep tokens .unmatchedPart)
      { skipped := s.skipped }).skipped (sessions.countP (fun x =>
        (sessionCandidate tokens x.sessionId x.commitMatch x.items).isNone)) r
    simp only [hk, h.skipped r] at hadd
    rw [hitems, List.countP_append, List.countP_append, List.countP_singleton, hc]
    change (Skipped.add _ .unmatchedSession 1) r = _
    simp only [Option.isNone_none, if_true]
    omega
  | some c =>
    refine ⟨by simp [h.candidates, hc], hscanned, hmatched, fun r => ?_⟩
    rw [hitems, List.countP_append, List.countP_append, List.countP_singleton, hc]
    simp only [hk, h.skipped r, Option.isNone_some, Bool.false_eq_true, if_false, Nat.add_zero]
    omega

variable (tokens) in
theorem gathered_run (sessions : List ContextDiscoverySession) :
    Gathered tokens sessions (sessions.foldl (sessionStep tokens) {}) := by
  induction sessions using List.reverseRecOn with
  | nil => exact ⟨rfl, rfl, rfl, fun r => by simp [unmatchedCount]⟩
  | append_singleton sessions x ih =>
    rw [List.foldl_append]
    exact gathered_step ih x

/-- A stream that yields the parts of every Session of a source, under the
source's own header. -/
structure DiscoveryStreams (source : ContextDiscoverySource) (metadata : ContextScanMetadata)
    (stream : List (String × EvidenceReadItem)) : Prop where
  authorizedSessions : metadata.authorizedSessions = source.authorizedSessions
  quarantineRevision : metadata.quarantineRevision = source.quarantineRevision
  visible : metadata.visibleInferenceCalls = source.visibleInferenceCalls
  quarantined : metadata.quarantinedInferenceCalls = source.quarantinedInferenceCalls
  commit : metadata.commit = source.commit
  sessions : metadata.sessions.Perm (source.sessions.map (fun x => ⟨x.sessionId, x.commitMatch⟩))
  items : stream.Perm (source.sessions.flatMap (fun x =>
    x.items.map (fun item => (x.sessionId, item))))

theorem ofSession_source {sessions : List ContextDiscoverySession}
    (hn : (sessions.map ContextDiscoverySession.sessionId).Nodup) {x : ContextDiscoverySession}
    (hx : x ∈ sessions) :
    ofSession x.sessionId (sessions.flatMap (fun x =>
      x.items.map (fun item => (x.sessionId, item)))) = x.items := by
  have hpart : ∀ (id : String) (y : ContextDiscoverySession),
      ofSession id (y.items.map (fun item => (y.sessionId, item))) =
        if y.sessionId = id then y.items else [] := by
    intro id y
    by_cases h : y.sessionId = id <;> simp [ofSession, List.filter_map, Function.comp_def, h]
  have hother : ∀ (id : String) (rest : List ContextDiscoverySession),
      (∀ y ∈ rest, y.sessionId ≠ id) → ofSession id (rest.flatMap (fun x =>
        x.items.map (fun item => (x.sessionId, item)))) = [] := by
    intro id rest hne
    rw [ofSession, List.map_eq_nil_iff, List.filter_eq_nil_iff]
    intro entry he
    obtain ⟨y, hy, hm⟩ := List.mem_flatMap.mp he
    obtain ⟨item, -, rfl⟩ := List.mem_map.mp hm
    simpa using hne y hy
  have happend : ∀ (id : String) (a b : List (String × EvidenceReadItem)),
      ofSession id (a ++ b) = ofSession id a ++ ofSession id b := by
    intro id a b
    simp [ofSession]
  induction sessions with
  | nil => simp at hx
  | cons y rest ih =>
    obtain ⟨hy, hn⟩ := List.nodup_cons.mp hn
    rw [List.flatMap_cons, happend, hpart]
    rcases List.mem_cons.mp hx with rfl | hx
    · rw [if_pos rfl, hother _ rest (fun z hz he => hy (List.mem_map.mpr ⟨z, hz, he⟩)),
        List.append_nil]
    · rw [if_neg (fun he => hy (List.mem_map.mpr ⟨x, hx, he.symm⟩)), ih hn hx, List.nil_append]

theorem sessionCandidate_perm {items items' : List EvidenceReadItem} (h : items.Perm items')
    (hu : (items'.map EvidenceReadItem.reference).Nodup) (id : String)
    (commitMatch : Option ContextCommitMatch) :
    sessionCandidate tokens id commitMatch items = sessionCandidate tokens id commitMatch items' := by
  have hm : (matched tokens items).Perm (matched tokens items') := h.filterMap _
  simp only [sessionCandidate, bestMatch_perm hm (rankKey_inj _ _ hu), hm.length_eq]

theorem sessionCandidate_id {id : String} {commitMatch : Option ContextCommitMatch}
    {items : List EvidenceReadItem} {d : ContextDiscoveryItem}
    (h : sessionCandidate tokens id commitMatch items = some d) : d.sessionId = id := by
  simp only [sessionCandidate] at h
  split at h <;> cases h
  rfl

/-- Sessions are told apart by their ids, so they never share a rank. -/
theorem discoveryRank_inj {sessions : List ContextDiscoverySession}
    (hn : (sessions.map ContextDiscoverySession.sessionId).Nodup) :
    ∀ a ∈ sessions.filterMap (fun x =>
        sessionCandidate tokens x.sessionId x.commitMatch x.items),
      ∀ b ∈ sessions.filterMap (fun x =>
        sessionCandidate tokens x.sessionId x.commitMatch x.items),
      discoveryRankKey a = discoveryRankKey b → a = b := by
  intro a ha b hb h
  obtain ⟨x, hx, hxa⟩ := List.mem_filterMap.mp ha
  obtain ⟨y, hy, hyb⟩ := List.mem_filterMap.mp hb
  simp only [discoveryRankKey, EmbeddingLike.apply_eq_iff_eq, Prod.mk.injEq] at h
  have hid : x.sessionId = y.sessionId := by
    rw [← sessionCandidate_id hxa, ← sessionCandidate_id hyb]
    exact h.2.2
  obtain rfl := List.inj_on_of_nodup_map hn hx hy hid
  exact Option.some.inj (hxa.symm.trans hyb)

section
variable [DatetimeJson]

theorem discoveryResult_perm {candidates candidates' : List ContextDiscoveryItem}
    (h : candidates.Perm candidates')
    (hk : ∀ a ∈ candidates', ∀ b ∈ candidates', discoveryRankKey a = discoveryRankKey b → a = b)
    (policy : ContextPolicy) (revision : Nat) (commit : Option ContextCommitAnchor)
    (authorized found visible quarantined scanned matchedParts : Nat) (skipped : Skipped)
    (maxBytes : Int) :
    discoveryResult policy revision commit authorized found visible quarantined scanned
        matchedParts skipped candidates maxBytes =
      discoveryResult policy revision commit authorized found visible quarantined scanned
        matchedParts skipped candidates' maxBytes := by
  have hsorted : sortedBy discoveryRankKey candidates = sortedBy discoveryRankKey candidates' :=
    (sortedBy_congr h.symm hk).symm
  have hany : (candidates ≠ []) = (candidates' ≠ []) := by
    rw [← List.length_pos_iff, ← List.length_pos_iff, h.length_eq]
  simp only [discoveryResult, hsorted, hany]

omit [DatetimeJson] in
/-- The stream and the whole source give the same candidates and counts. -/
theorem discovered_agree {source : ContextDiscoverySource} {metadata : ContextScanMetadata}
    {s : DiscoveryState} (h : DiscoveryStreams source metadata stream)
    (hu : ∀ x ∈ source.sessions, (x.items.map EvidenceReadItem.reference).Nodup)
    (hs : Followed tokens (metadata.sessions.map ContextScanSession.sessionId) stream s) :
    let ranked := metadata.sessions.foldl (foundStep s.sessions) { skipped := s.skipped }
    let gathered := source.sessions.foldl (sessionStep tokens) {}
    ranked.candidates.Perm gathered.candidates ∧ ranked.skipped = gathered.skipped ∧
      s.scannedParts = gathered.scannedParts ∧ s.matchedParts = gathered.matchedParts := by
  have hitems : (stream.map Prod.snd).Perm
      (source.sessions.flatMap ContextDiscoverySession.items) := by
    have hmap := h.items.map Prod.snd
    rw [List.map_flatMap] at hmap
    simpa [Function.comp_def] using hmap
  obtain ⟨hc, hk⟩ := found_run hs metadata.sessions
    (fun x hx => List.mem_map_of_mem hx) { skipped := s.skipped }
  obtain ⟨hgc, hgs, hgm, hgk⟩ := gathered_run tokens source.sessions
  have hsame : ∀ x ∈ source.sessions, sessionCandidate tokens x.sessionId x.commitMatch
      (ofSession x.sessionId stream) =
        sessionCandidate tokens x.sessionId x.commitMatch x.items := by
    intro x hx
    refine sessionCandidate_perm ?_ (hu x hx) _ _
    have hof := (h.items.filter (fun entry => entry.1 = x.sessionId)).map Prod.snd
    have hsource := ofSession_source source.distinct hx
    unfold ofSession at hsource
    rwa [hsource] at hof
  have hunmatched : metadata.sessions.countP (fun x => (sessionCandidate tokens
      x.sessionId x.commitMatch (ofSession x.sessionId stream)).isNone) =
      source.sessions.countP (fun x => (sessionCandidate tokens x.sessionId x.commitMatch
        x.items).isNone) := by
    rw [h.sessions.countP_eq, List.countP_map]
    refine List.countP_congr (fun x hx => ?_)
    rw [Function.comp_apply, hsame x hx]
  refine ⟨?_, ?_, ?_, ?_⟩
  · rw [hc, hgc, List.nil_append, ← List.filterMap_congr hsame]
    have hp := h.sessions.filterMap (fun x => sessionCandidate tokens
      x.sessionId x.commitMatch (ofSession x.sessionId stream))
    rwa [List.filterMap_map] at hp
  · funext r
    simp only [hk, hgk, hunmatched, hs.skipped, hitems.countP_eq]
  · rw [hs.scanned, hgs, ← hitems.length_eq, List.length_map]
  · rw [hs.matchedParts, hgm]
    exact (hitems.filterMap _).length_eq

theorem discover_agrees {source : ContextDiscoverySource} {metadata : ContextScanMetadata}
    {stream : List (String × EvidenceReadItem)} (h : DiscoveryStreams source metadata stream)
    (hu : ∀ x ∈ source.sessions, (x.items.map EvidenceReadItem.reference).Nodup) (query : String)
    (maxBytes : Int) (policy : ContextPolicy) :
    discoverContextStream metadata stream query maxBytes policy = .error stateLimit ∨
      discoverContextStream metadata stream query maxBytes policy =
        discoverContext source query maxBytes policy := by
  unfold discoverContextStream discoverContext
  cases hq : contextQueryTokens query with
  | error e => exact Or.inr rfl
  | ok tokens =>
    cases hb : validateResponseBudget maxBytes with
    | error e => exact Or.inr rfl
    | ok _ =>
      simp only [ok_bind]
      have hfound : ∀ entry ∈ stream,
          entry.1 ∈ metadata.sessions.map ContextScanSession.sessionId := by
        intro entry he
        obtain ⟨x, hx, hm⟩ := List.mem_flatMap.mp (h.items.mem_iff.mp he)
        obtain ⟨item, -, rfl⟩ := List.mem_map.mp hm
        exact List.mem_map.mpr ⟨_, h.sessions.mem_iff.mpr (List.mem_map_of_mem hx), rfl⟩
      generalize hstart : metadata.sessions.foldl (fun d session =>
        d.set session.sessionId ({} : SessionState)) Dict.empty = start
      have hnil := followed_nil tokens metadata.sessions
        (start.keys.length * contextStateEntryBytes)
      rw [hstart] at hnil
      unfold checkStateBytes
      split
      · exact Or.inl rfl
      · rcases foldlM_cases (f := discoverStep tokens)
          (Followed tokens (metadata.sessions.map ContextScanSession.sessionId)) (· = stateLimit)
          stream hnil (by
            intro seen entry rest s hx hs
            exact discoverStep_followed hs (hfound entry (by rw [← hx]; simp)))
          with ⟨e, rfl, hrun⟩ | ⟨s, hrun, hs⟩
        · exact Or.inl (by simp only [ok_bind, hrun, error_bind])
        · right
          obtain ⟨hc, hk, hscanned, hmatched⟩ := discovered_agree h hu hs
          have hlen : metadata.sessions.length = source.sessions.length := by
            rw [h.sessions.length_eq, List.length_map]
          simp only [ok_bind, hrun, h.authorizedSessions, h.quarantineRevision, h.visible,
            h.quarantined, h.commit, hk, hlen, hscanned, hmatched]
          refine discoveryResult_perm hc ?_ _ _ _ _ _ _ _ _ _ _ _
          rw [(gathered_run tokens source.sessions).candidates]
          exact discoveryRank_inj source.distinct

/-- A stream that stays inside the state limit selects what the whole source
would, in whatever order it yields the parts. -/
theorem context_streams_agree (query : String) (maxBytes : Int) (policy : ContextPolicy) :
    (∀ source metadata stream, Streams source metadata stream →
      (source.items.map EvidenceReadItem.reference).Nodup →
      retrieveContextStream metadata stream query maxBytes policy ≠ .error stateLimit →
      retrieveContextStream metadata stream query maxBytes policy =
        retrieveContext source query maxBytes policy) ∧
    ∀ source metadata stream, DiscoveryStreams source metadata stream →
      ((source.sessions.flatMap ContextDiscoverySession.items).map
        EvidenceReadItem.reference).Nodup →
      discoverContextStream metadata stream query maxBytes policy ≠ .error stateLimit →
      discoverContextStream metadata stream query maxBytes policy =
        discoverContext source query maxBytes policy := by
  refine ⟨fun source metadata stream h hu hne => ?_, fun source metadata stream h hu hne => ?_⟩
  · exact (retrieve_agrees h hu query maxBytes policy).resolve_left hne
  · refine (discover_agrees h (fun x hx => ?_) query maxBytes policy).resolve_left hne
    have hsub : x.items.Sublist (source.sessions.flatMap ContextDiscoverySession.items) := by
      simpa using (List.singleton_sublist.mpr hx).flatMap ContextDiscoverySession.items
    exact hu.sublist (hsub.map _)

end

@[reducible] def spelled : DatetimeJson := ⟨AwareDatetime.isoformat⟩

def part (id content : String) (utc : Int) : EvidenceReadItem where
  reference := ⟨id, .input, 0, 0⟩
  observedAt := ⟨utc, "1970-01-01T00:00:00Z", "UTC", 0⟩
  role := "user"
  finishReason := none
  part := .text content

def twoCopies : EvidenceContextSource :=
  ⟨"s", 7, 2, 0, [part "a" "parser" 1, part "b" "parser" 2]⟩

def twoCopiesScan : ContextScanMetadata := ⟨1, 7, 2, 0, [⟨"s", none⟩], none⟩

def swapped : List (String × EvidenceReadItem) :=
  [("s", part "b" "parser" 2), ("s", part "a" "parser" 1)]

def twoSessions : ContextDiscoverySource where
  authorizedSessions := 3
  quarantineRevision := 7
  visibleInferenceCalls := 2
  quarantinedInferenceCalls := 0
  sessions := [⟨"s", [part "a" "parser" 1], none⟩, ⟨"t", [part "b" "parser fails" 2], none⟩]
  commit := none
  distinct := by decide

theorem swapped_copies_agree :
    (@retrieveContextStream spelled twoCopiesScan swapped "parser" 4096 {} =
        @retrieveContext spelled twoCopies "parser" 4096 {} ∧
      (@retrieveContext spelled twoCopies "parser" 4096 {}).toOption.map (fun r =>
        (r.items.map (fun c => c.evidence.reference.inferenceCallId),
          r.skipped .repeatedContent)) = some (["b"], 1)) ∧
    @discoverContextStream spelled ⟨3, 7, 2, 0, [⟨"s", none⟩, ⟨"t", none⟩], none⟩
        [("t", part "b" "parser fails" 2), ("s", part "a" "parser" 1)] "parser" 4096 {} =
      @discoverContext spelled twoSessions "parser" 4096 {} := by
  have hok : (@retrieveContextStream spelled twoCopiesScan swapped "parser" 4096 {}).isOk := by
    decide +kernel
  have hok' : (@discoverContextStream spelled ⟨3, 7, 2, 0, [⟨"s", none⟩, ⟨"t", none⟩], none⟩
      [("t", part "b" "parser fails" 2), ("s", part "a" "parser" 1)] "parser" 4096 {}).isOk := by
    decide +kernel
  have h := @context_streams_agree spelled "parser" 4096 {}
  refine ⟨⟨h.1 twoCopies twoCopiesScan swapped ⟨rfl, rfl, rfl, rfl, List.Perm.swap _ _ _⟩
    (by decide) ?_, by decide +kernel⟩, h.2 twoSessions _ _
      ⟨rfl, rfl, rfl, rfl, rfl, List.Perm.refl _, List.Perm.swap _ _ _⟩ (by decide) ?_⟩
  · intro he
    rw [he] at hok
    cases hok
  · intro he
    rw [he] at hok'
    cases hok'

end Sediment.Proofs.ContextDiscovery

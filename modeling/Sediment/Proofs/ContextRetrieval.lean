import Sediment.Base.Results
import Sediment.Proofs.ContextCandidates

namespace Sediment.Proofs.ContextRetrieval
open Sediment.Base Sediment.Core Sediment.Derive
open Sediment.Proofs.ContextCandidates

variable {tokens : Finset (List Char)} {seen items items' : List EvidenceReadItem}
  {item : EvidenceReadItem} {sessionId : String} {s : GroupState}

def itemText (c : ContextRetrievalItem) : List Char := contentText c.evidence

/-- The state of the stream, in terms of the parts read so far. -/
structure Grouped (tokens : Finset (List Char)) (seen : List EvidenceReadItem)
    (s : GroupState) : Prop where
  held : ∀ key c reserved, s.groups.get? key = some (c, reserved) →
    itemText c = key ∧ c ∈ candidates tokens .noMatch seen
  best : ∀ c ∈ candidates tokens .noMatch seen, ∃ b reserved,
    s.groups.get? (itemText c) = some (b, reserved) ∧ rankKey b ≤ rankKey c
  scanned : s.scannedParts = seen.length
  skipped : ∀ r, r ≠ .repeatedContent →
    s.skipped r = seen.countP (fun item => declined tokens .noMatch item = some r)
  repeated : s.skipped .repeatedContent + s.groups.keys.length =
    (candidates tokens .noMatch seen).length

theorem grouped_nil : Grouped tokens [] {} where
  held key c reserved h := by cases h
  best c hc := by simp [candidates] at hc
  scanned := rfl
  skipped r _ := rfl
  repeated := rfl

theorem grouped_declined {r : ContextSkipReason} (h : Grouped tokens seen s)
    (hr : candidate item tokens .noMatch = .error r) :
    Grouped tokens (seen ++ [item])
      { s with scannedParts := s.scannedParts + 1, skipped := s.skipped.add r 1 } := by
  obtain ⟨hc, hd⟩ := candidates_error hr
  have hne : r ≠ .repeatedContent := by
    rcases candidate_error hr with rfl | rfl | rfl <;> decide
  have hcands : candidates tokens .noMatch (seen ++ [item]) =
      candidates tokens .noMatch seen := by rw [candidates_append, hc, List.append_nil]
  refine ⟨by rw [hcands]; exact h.held, by rw [hcands]; exact h.best, by simp [h.scanned], ?_, ?_⟩
  · intro r' hr'
    simp only [Skipped.add, Skipped.set, Function.update_apply, List.countP_append,
      List.countP_cons, List.countP_nil, hd, Option.some.injEq, decide_eq_true_eq]
    by_cases he : r' = r
    · simp [he, h.skipped r hne]
    · simp [he, Ne.symm he, h.skipped r' hr']
  · rw [hcands, ← h.repeated]
    simp [Skipped.add, Skipped.set, Ne.symm hne]

theorem length_keys_set_new {κ α : Type} [DecidableEq κ] (d : Dict κ α) {key : κ} {v : α}
    (h : d.get? key = none) : (d.set key v).keys.length = d.keys.length + 1 := by
  rw [Dict.set, Dict.keys_alter, if_neg ((Dict.get?_eq_none_iff d).mp h)]
  simp

theorem length_keys_set_old {κ α : Type} [DecidableEq κ] (d : Dict κ α) {key : κ} {v w : α}
    (h : d.get? key = some w) : (d.set key v).keys.length = d.keys.length := by
  rw [Dict.set, Dict.keys_alter, if_pos ((Dict.mem_keys_iff d).mpr ⟨w, h⟩)]

/-- The first occurrence of its content opens a group. -/
theorem grouped_new {c : ContextRetrievalItem} {size stateBytes : Nat}
    (h : Grouped tokens seen s) (hc : candidate item tokens .noMatch = .ok c)
    (hg : s.groups.get? (contentText item) = none) :
    Grouped tokens (seen ++ [item])
      { s with
        scannedParts := s.scannedParts + 1
        groups := s.groups.set (contentText item) (c, size)
        stateBytes } := by
  obtain ⟨hcs, hd⟩ := candidates_ok hc
  have htext : itemText c = contentText item := by rw [itemText, (candidate_ok hc).1]
  have hcands : candidates tokens .noMatch (seen ++ [item]) =
      candidates tokens .noMatch seen ++ [c] := by rw [candidates_append, hcs]
  refine ⟨?_, ?_, by simp [h.scanned], ?_, ?_⟩
  · intro key b reserved hb
    simp only [Dict.get?_set] at hb
    rw [hcands]
    split at hb
    · rename_i hk
      cases hb
      exact ⟨htext.trans hk.symm, by simp⟩
    · obtain ⟨h1, h2⟩ := h.held key b reserved hb
      exact ⟨h1, List.mem_append_left _ h2⟩
  · intro d hd
    rw [hcands, List.mem_append, List.mem_singleton] at hd
    simp only [Dict.get?_set]
    rcases hd with hd | rfl
    · obtain ⟨b, reserved, hb, hr⟩ := h.best d hd
      have hne : itemText d ≠ contentText item := by
        intro he
        rw [he, hg] at hb
        cases hb
      exact ⟨b, reserved, by rw [if_neg hne, hb], hr⟩
    · exact ⟨d, size, by rw [if_pos htext], le_refl _⟩
  · intro r hr
    simp [h.skipped r hr, List.countP_append, hd]
  · change s.skipped .repeatedContent + (s.groups.set _ _).keys.length = _
    rw [length_keys_set_new _ hg, hcands, List.length_append, ← h.repeated]
    rfl

/-- A later occurrence stays or takes its group over, whichever ranks first. -/
theorem grouped_old {c best : ContextRetrievalItem} {size reserved stateBytes : Nat}
    (h : Grouped tokens seen s) (hc : candidate item tokens .noMatch = .ok c)
    (hg : s.groups.get? (contentText item) = some (best, reserved)) :
    Grouped tokens (seen ++ [item])
      { s with
        scannedParts := s.scannedParts + 1
        groups := s.groups.set (contentText item)
          (if rankKey c < rankKey best then c else best, size)
        stateBytes
        skipped := s.skipped.add .repeatedContent 1 } := by
  obtain ⟨hcs, hd⟩ := candidates_ok hc
  have htext : itemText c = contentText item := by rw [itemText, (candidate_ok hc).1]
  obtain ⟨hbt, hbm⟩ := h.held _ _ _ hg
  have hcands : candidates tokens .noMatch (seen ++ [item]) =
      candidates tokens .noMatch seen ++ [c] := by rw [candidates_append, hcs]
  have hchosen : ∀ b, b = (if rankKey c < rankKey best then c else best) →
      itemText b = contentText item ∧ b ∈ candidates tokens .noMatch (seen ++ [item]) ∧
        rankKey b ≤ rankKey c ∧ rankKey b ≤ rankKey best := by
    intro b hb
    rw [hcands]
    split at hb <;> subst hb
    · rename_i hlt
      exact ⟨htext, by simp, le_refl _, le_of_lt hlt⟩
    · rename_i hge
      exact ⟨hbt, List.mem_append_left _ hbm, not_lt.mp hge, le_refl _⟩
  obtain ⟨h1, h2, h3, h4⟩ := hchosen _ rfl
  refine ⟨?_, ?_, by simp [h.scanned], ?_, ?_⟩
  · intro key b reserved' hb
    simp only [Dict.get?_set] at hb
    split at hb
    · rename_i hk
      cases hb
      exact ⟨h1.trans hk.symm, h2⟩
    · obtain ⟨hbk, hbc⟩ := h.held key b reserved' hb
      exact ⟨hbk, by rw [hcands]; exact List.mem_append_left _ hbc⟩
  · intro d hd
    rw [hcands, List.mem_append, List.mem_singleton] at hd
    simp only [Dict.get?_set]
    rcases hd with hd | rfl
    · obtain ⟨b, reserved', hb, hr⟩ := h.best d hd
      by_cases he : itemText d = contentText item
      · rw [he, hg] at hb
        cases hb
        exact ⟨_, size, by rw [if_pos he], le_trans h4 hr⟩
      · exact ⟨b, reserved', by rw [if_neg he, hb], hr⟩
    · exact ⟨_, size, by rw [if_pos htext], h3⟩
  · intro r hr
    simp [Skipped.add, Skipped.set, hr, h.skipped r hr, List.countP_append, hd]
  · change (s.skipped.add .repeatedContent 1) .repeatedContent + (s.groups.set _ _).keys.length = _
    rw [length_keys_set_old _ hg, hcands, List.length_append, ← h.repeated]
    simp only [Skipped.add, Skipped.set, Function.update_apply, if_true, List.length_singleton]
    omega

section
variable [DatetimeJson]

/-- One part of the Session either reaches the state limit or is taken in. -/
theorem groupStep_grouped (h : Grouped tokens seen s) :
    (∃ e, e = stateLimit ∧ groupStep sessionId tokens s (sessionId, item) = .error e) ∨
      ∃ s', groupStep sessionId tokens s (sessionId, item) = .ok s' ∧
        Grouped tokens (seen ++ [item]) s' := by
  simp only [groupStep, ne_eq, not_true_eq_false, if_false]
  cases hc : candidate item tokens .noMatch with
  | error r => exact Or.inr ⟨_, rfl, grouped_declined h hc⟩
  | ok c =>
    simp only [contentKey_ok hc, Except.mapError, ok_bind]
    rcases stateEncodingSize_cases (candidate_finite hc) with hs | ⟨size, hs⟩
    · simp only [hs, error_bind]
      exact Or.inl ⟨_, rfl, rfl⟩
    · simp only [hs, ok_bind]
      cases hg : s.groups.get? (contentText item) with
      | none =>
        dsimp only
        split
        · exact Or.inl ⟨_, rfl, rfl⟩
        · unfold checkStateBytes
          split
          · exact Or.inl ⟨_, rfl, rfl⟩
          · exact Or.inr ⟨_, rfl, grouped_new h hc hg⟩
      | some kept =>
        obtain ⟨best, reserved⟩ := kept
        dsimp only
        unfold checkStateBytes
        split
        · exact Or.inl ⟨_, rfl, rfl⟩
        · exact Or.inr ⟨_, rfl, grouped_old h hc hg⟩

variable (tokens) in
theorem stream_run {stream : List (String × EvidenceReadItem)}
    (h : ∀ entry ∈ stream, entry.1 = sessionId) :
    (∃ e, e = stateLimit ∧ stream.foldlM (groupStep sessionId tokens) {} = .error e) ∨
      ∃ s, stream.foldlM (groupStep sessionId tokens) {} = .ok s ∧
        Grouped tokens (stream.map Prod.snd) s := by
  refine foldlM_cases (fun seen s => Grouped tokens (seen.map Prod.snd) s) (· = stateLimit)
    _ grouped_nil ?_
  intro seen entry rest s hx hs
  obtain ⟨identifier, item⟩ := entry
  obtain rfl : identifier = sessionId := h (identifier, item) (by rw [← hx]; simp)
  rw [List.map_append]
  exact groupStep_grouped hs

omit [DatetimeJson] in
/-- The stream keeps the best part of each content. -/
theorem bestOf_groups (h : Grouped tokens seen s) :
    BestOf itemText rankKey (candidates tokens .noMatch seen) (s.groups.values.map Prod.fst) := by
  have hentry : ∀ e ∈ s.groups.entries, itemText e.2.1 = e.1 ∧
      e.2.1 ∈ candidates tokens .noMatch seen := by
    rintro ⟨key, c, reserved⟩ he
    exact h.held key c reserved (s.groups.mem_entries_iff.mp he)
  refine ⟨?_, ?_, ?_⟩
  · intro c hc
    rw [Dict.values, List.map_map, List.mem_map] at hc
    obtain ⟨e, he, rfl⟩ := hc
    exact (hentry e he).2
  · have hkeys : (s.groups.values.map Prod.fst).map itemText = s.groups.keys := by
      rw [Dict.values, List.map_map, List.map_map, Dict.keys]
      exact List.map_congr_left (fun e he => (hentry e he).1)
    rw [hkeys]
    exact Dict.nodup_keys _
  · intro c hc
    obtain ⟨b, reserved, hb, hr⟩ := h.best c hc
    refine ⟨b, ?_, (h.held _ _ _ hb).1, hr⟩
    rw [Dict.values, List.map_map, List.mem_map]
    exact ⟨_, s.groups.mem_entries_iff.mpr hb, rfl⟩

/-- What the generator has yielded of the candidates it has drawn. -/
structure Yielded (drawn : List ContextRetrievalItem) (s : Distinct) : Prop where
  seen : ∀ key, key ∈ s.seen ↔ ∃ c ∈ drawn, itemText c = key
  best : BestOf itemText rankKey drawn s.yielded
  order : s.yielded.Sublist drawn
  repeated : s.repeated + s.yielded.length = drawn.length

omit [DatetimeJson] in
theorem distinct_run (sorted : List ContextRetrievalItem)
    (hk : ∀ c ∈ sorted, contentKey c.evidence = .ok (itemText c))
    (ho : sorted.Pairwise (fun c d => rankKey c ≤ rankKey d)) :
    ∃ s, sorted.foldlM distinctStep {} = .ok s ∧ Yielded sorted s := by
  have hnil : Yielded [] {} := ⟨by simp, BestOf.nil, List.Sublist.refl _, rfl⟩
  have hrun := foldlM_cases (f := distinctStep) (fun drawn s => Yielded drawn s)
    (fun _ => False) sorted hnil (by
      intro drawn c rest s hx hs
      right
      have hc : c ∈ sorted := by rw [← hx]; simp
      have hbefore : ∀ d ∈ drawn, rankKey d ≤ rankKey c := by
        rw [← hx, List.pairwise_append] at ho
        exact fun d hd => ho.2.2 d hd c (by simp)
      simp only [distinctStep, hk c hc, ok_bind]
      split
      · rename_i hin
        refine ⟨_, rfl, ?_, ?_, hs.order.trans (List.sublist_append_left _ _), ?_⟩
        · intro key
          simp only [hs.seen, List.mem_append, List.mem_singleton, or_and_right, exists_or,
            exists_eq_left]
          exact ⟨Or.inl, fun h => h.elim id (fun he => he ▸ (hs.seen _).mp hin)⟩
        · obtain ⟨d, hd, hdk⟩ := (hs.seen _).mp hin
          obtain ⟨y, hy, hyk, -⟩ := hs.best.best d hd
          exact hs.best.repeated ⟨y, hy, hyk.trans hdk, hbefore y (hs.best.mem y hy)⟩
        · have hr := hs.repeated
          simp only [List.length_append, List.length_singleton]
          omega
      · rename_i hnew
        refine ⟨_, rfl, ?_, ?_, hs.order.append (List.Sublist.refl [c]), ?_⟩
        · intro key
          simp only [Finset.mem_insert, hs.seen, List.mem_append, List.mem_singleton,
            or_and_right, exists_or, exists_eq_left]
          rw [or_comm, eq_comm]
        · refine hs.best.new (fun y hy he => hnew ?_)
          exact (hs.seen _).mpr ⟨y, hs.best.mem y hy, he⟩
        · have hr := hs.repeated
          simp only [List.length_append, List.length_singleton]
          omega)
  rcases hrun with ⟨e, hf, -⟩ | h
  · exact hf.elim
  · exact h

/-- A stream that yields the parts of a source, under the source's own header. -/
structure Streams (source : EvidenceContextSource) (metadata : ContextScanMetadata)
    (stream : List (String × EvidenceReadItem)) : Prop where
  session : metadata.sessions.map ContextScanSession.sessionId = [source.sessionId]
  quarantineRevision : metadata.quarantineRevision = source.quarantineRevision
  visible : metadata.visibleInferenceCalls = source.visibleInferenceCalls
  quarantined : metadata.quarantinedInferenceCalls = source.quarantinedInferenceCalls
  items : stream.Perm (source.items.map (fun item => (source.sessionId, item)))

omit [DatetimeJson] in
theorem candidates_perm (h : items.Perm items') :
    (candidates tokens .noMatch items).Perm (candidates tokens .noMatch items') :=
  h.filterMap _

omit [DatetimeJson] in
theorem declined_ne_repeated (item : EvidenceReadItem) :
    declined tokens .noMatch item ≠ some .repeatedContent := by
  unfold declined
  split
  · rename_i r hr
    rcases candidate_error hr with rfl | rfl | rfl <;> decide
  · simp

omit [DatetimeJson] in
/-- The groups in rank order are the candidates the generator yields. -/
theorem ranked_groups {d : Distinct} (hg : Grouped tokens items s) (hp : items.Perm items')
    (hu : (items'.map EvidenceReadItem.reference).Nodup)
    (hy : Yielded (sortedBy rankKey (candidates tokens .noMatch items')) d) :
    sortedBy rankKey (s.groups.values.map Prod.fst) = d.yielded ∧
      s.groups.keys.length = d.yielded.length := by
  have hinj := rankKey_inj tokens .noMatch hu
  have hbest := hy.best.congr (sortedBy_perm _ _)
  have hgroups : (s.groups.values.map Prod.fst).Perm d.yielded :=
    ((bestOf_groups hg).congr (candidates_perm hp)).perm hbest hinj
  refine ⟨?_, by rw [← hgroups.length_eq]; simp [Dict.keys, Dict.values]⟩
  refine eq_of_perm_of_pairwise rankKey ((sortedBy_perm _ _).trans hgroups) ?_
    (sortedBy_pairwise _ _) ((sortedBy_pairwise _ _).sublist hy.order)
  intro a ha b hb
  rw [mem_sortedBy] at ha hb
  exact hinj a (hbest.mem a (hgroups.mem_iff.mp ha)) b (hbest.mem b (hgroups.mem_iff.mp hb))

omit [DatetimeJson] in
theorem skipped_agree {d : Distinct} (skipped : Skipped) (hg : Grouped tokens items s)
    (hp : items.Perm items')
    (hy : Yielded (sortedBy rankKey (candidates tokens .noMatch items')) d)
    (hlen : s.groups.keys.length = d.yielded.length)
    (hs : ∀ r, skipped r = items'.countP (fun item => declined tokens .noMatch item = some r)) :
    s.skipped = skipped.add .repeatedContent d.repeated := by
  funext r
  by_cases hr : r = .repeatedContent
  · subst hr
    have hnone : skipped .repeatedContent = 0 := by
      rw [hs, List.countP_eq_zero]
      exact fun item _ => by simpa using declined_ne_repeated item
    have hcount := hg.repeated
    have hcount' := hy.repeated
    rw [length_sortedBy, ← (candidates_perm hp).length_eq] at hcount'
    simp only [Skipped.add, Skipped.set, Function.update_self, hnone]
    omega
  · simp only [Skipped.add, Skipped.set, Function.update_apply, hr, if_false, hs,
      hg.skipped r hr]
    exact hp.countP_eq _

theorem retrieve_agrees {source : EvidenceContextSource} {metadata : ContextScanMetadata}
    {stream : List (String × EvidenceReadItem)} (h : Streams source metadata stream)
    (hu : (source.items.map EvidenceReadItem.reference).Nodup) (query : String) (maxBytes : Int)
    (policy : ContextPolicy) :
    retrieveContextStream metadata stream query maxBytes policy = .error stateLimit ∨
      retrieveContextStream metadata stream query maxBytes policy =
        retrieveContext source query maxBytes policy := by
  unfold retrieveContextStream retrieveContext
  cases hq : contextQueryTokens query with
  | error e => exact Or.inr rfl
  | ok tokens =>
    cases hb : validateResponseBudget maxBytes with
    | error e => exact Or.inr rfl
    | ok _ =>
      obtain ⟨session, hs⟩ : ∃ session, metadata.sessions = [session] := by
        have hlen := congrArg List.length h.session
        rw [List.length_map] at hlen
        exact List.length_eq_one_iff.mp hlen
      have hid : session.sessionId = source.sessionId := by
        have hsession := h.session
        rw [hs] at hsession
        exact List.head_eq_of_cons_eq hsession
      have hstream : ∀ entry ∈ stream, entry.1 = source.sessionId := by
        intro entry he
        obtain ⟨item, -, rfl⟩ := List.mem_map.mp (h.items.mem_iff.mp he)
        rfl
      have hitems : (stream.map Prod.snd).Perm source.items := by
        have hmap := h.items.map Prod.snd
        rwa [List.map_map, show Prod.snd ∘ (fun item : EvidenceReadItem =>
          (source.sessionId, item)) = id from rfl, List.map_id] at hmap
      simp only [ok_bind, hs, hid]
      rcases stream_run tokens hstream with ⟨e, rfl, hrun⟩ | ⟨s, hrun, hg⟩
      · exact Or.inl (by rw [hrun]; rfl)
      · obtain ⟨hcands, hskip⟩ := scan_run tokens .noMatch {} source.items
        generalize source.items.foldl (scanStep tokens .noMatch) {} = scan at hcands hskip ⊢
        rw [List.nil_append] at hcands
        obtain ⟨d, hd, hy⟩ := distinct_run (sortedBy rankKey scan.candidates) (by
          intro c hc
          rw [mem_sortedBy, hcands] at hc
          obtain ⟨item, -, hok⟩ := mem_candidates.mp hc
          rw [itemText, (candidate_ok hok).1]
          exact contentKey_ok hok) (sortedBy_pairwise _ _)
        rw [hcands] at hy
        obtain ⟨hranked, hlen⟩ := ranked_groups hg hitems hu hy
        have hskipped := skipped_agree scan.skipped hg hitems hy hlen
          (fun r => by simpa using hskip r)
        have hany : (s.groups.keys ≠ []) = (scan.candidates ≠ []) := by
          rw [hcands, ← List.length_pos_iff, ← List.length_pos_iff, hlen, propext_iff]
          have hcount := hy.repeated
          rw [length_sortedBy] at hcount
          constructor
          · omega
          · intro hpos
            obtain ⟨c, hc⟩ := List.exists_mem_of_length_pos hpos
            obtain ⟨y, hym, -⟩ := hy.best.best c (mem_sortedBy.mpr hc)
            exact List.length_pos_of_mem hym
        right
        rw [hrun, hd]
        simp only [ok_bind, Except.mapError, h.quarantineRevision, h.visible, h.quarantined,
          hranked, hskipped, hany, hg.scanned, hitems.length_eq]

end

end Sediment.Proofs.ContextRetrieval

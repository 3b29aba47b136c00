import Sediment.Base.Packing
import Sediment.Base.Results
import Sediment.Derive.ContextPacking
import Sediment.Proofs.EvidenceValues

namespace Sediment.Proofs.ContextPacking
open Sediment.Base Sediment.Base.JsonScan Sediment.Base.Packing Sediment.Core
  Sediment.Core.EvidenceJson Sediment.Derive Sediment.Derive.ContextPacking
  Sediment.Proofs.EvidenceJson Sediment.Proofs.EvidenceValues

section
variable {ι ε : Type}

/-- The encoder writes each item with one size, within the limit it is given. -/
structure Measured (encode : ι → Int → Except ε (List Char)) (size : ι → Option Nat) :
    Prop where
  encoded : ∀ c limit text, encode c limit = .ok text →
    size c = some text.length ∧ (text.length : Int) ≤ limit
  fits : ∀ c limit n, size c = some n → (n : Int) ≤ limit → ∃ text, encode c limit = .ok text

variable (size : ι → Option Nat)

/-- The bytes of items with their separators. -/
def packedSize (items : List ι) : Nat := joinedSize (items.map (fun c => (size c).getD 0))

/-- The room for items in a response. -/
def budget (maxBytes : Int) : Int := maxBytes - contextEnvelopeBytes

/-- Another item finds a place behind those selected. -/
def Takes (maxBytes : Int) (selected : List ι) (c : ι) : Prop :=
  selected.length < contextItemLimit ∧
    ∃ n, size c = some n ∧ (packedSize size (selected ++ [c]) : Int) ≤ budget maxBytes

/-- What the packer has done with the candidates so far. -/
structure Packs (maxBytes : Int) (seen : List ι) (s : Packed ι) : Prop where
  ranked : s.selected.Sublist seen
  few : s.selected.length ≤ contextItemLimit
  counted : s.selected.length + s.limited + s.oversized = seen.length
  sized : ∀ c ∈ s.selected, ∃ n, size c = some n
  remaining : s.remaining = budget maxBytes - packedSize size s.selected
  room : (packedSize size s.selected : Int) ≤ budget maxBytes

theorem packedSize_concat {selected : List ι} {c : ι} {n : Nat} (h : size c = some n) :
    (packedSize size (selected ++ [c]) : Int) =
      packedSize size selected + ((if selected = [] then 0 else 1) + n) := by
  unfold packedSize
  rw [List.map_append, List.map_singleton, joinedSize_concat, h, Option.getD_some]
  cases selected <;> simp

variable {size} {encode : ι → Int → Except ε (List Char)} {isLimit : ε → Bool}

/-- One candidate is taken where it still fits, and counted. -/
theorem pack_step (hm : Measured encode size) {maxBytes : Int} {seen : List ι}
    {s s' : Packed ι} {c : ι} (hs : Packs size maxBytes seen s)
    (h : packStepBy encode isLimit s c = .ok s') :
    Packs size maxBytes (seen ++ [c]) s' ∧
      (Takes size maxBytes s.selected c → s'.selected = s.selected ++ [c]) ∧
      (¬ Takes size maxBytes s.selected c → s'.selected = s.selected) := by
  have hcount := hs.counted
  have hfew := hs.few
  unfold packStepBy at h
  split at h
  · rename_i hfull
    cases h
    refine ⟨⟨hs.ranked.trans (List.sublist_append_left _ _), hs.few, ?_, hs.sized, hs.remaining,
      hs.room⟩, fun ht => absurd ht.1 (by omega), fun _ => rfl⟩
    change s.selected.length + (s.limited + 1) + s.oversized = _
    rw [List.length_append, List.length_singleton, ← hcount]
    omega
  · rename_i hplace
    simp only at h
    cases hencode : encode c (s.remaining - if s.selected = [] then 0 else 1) with
    | ok text =>
      rw [hencode] at h
      cases h
      obtain ⟨hsize, hlength⟩ := hm.encoded _ _ _ hencode
      have hconcat := @packedSize_concat _ size s.selected _ _ hsize
      have hremaining := hs.remaining
      have hroom : (packedSize size (s.selected ++ [c]) : Int) ≤ budget maxBytes := by
        rw [hconcat]
        omega
      refine ⟨⟨hs.ranked.append (List.Sublist.refl _), ?_, ?_, ?_, ?_, hroom⟩, fun _ => rfl,
        fun ht => absurd ⟨by omega, _, hsize, hroom⟩ ht⟩
      · rw [List.length_append, List.length_singleton]
        omega
      · change (s.selected ++ [c]).length + s.limited + s.oversized = _
        rw [List.length_append, List.length_append, List.length_singleton, ← hcount]
        omega
      · intro other hother
        rcases List.mem_append.mp hother with hother | hother
        · exact hs.sized other hother
        · rw [List.mem_singleton.mp hother]
          exact ⟨_, hsize⟩
      · change s.remaining - (text.length + _) = _
        rw [hconcat]
        omega
    | error e =>
      rw [hencode] at h
      simp only at h
      split at h
      · cases h
        refine ⟨⟨hs.ranked.trans (List.sublist_append_left _ _), hs.few, ?_, hs.sized,
          hs.remaining, hs.room⟩, ?_, fun _ => rfl⟩
        · change s.selected.length + s.limited + (s.oversized + 1) = _
          rw [List.length_append, List.length_singleton, ← hcount]
          omega
        · intro ht
          obtain ⟨-, n, hsize, hroom⟩ := ht
          have hremaining := hs.remaining
          rw [packedSize_concat size hsize] at hroom
          obtain ⟨text, htext⟩ := hm.fits c (s.remaining - if s.selected = [] then 0 else 1) n
            hsize (by omega)
          rw [hencode] at htext
          cases htext
      · cases h

theorem packs_start {maxBytes : Int} (h : contextMinResponseBytes ≤ maxBytes) :
    Packs size maxBytes [] ({ remaining := maxBytes - contextEnvelopeBytes } : Packed ι) where
  ranked := List.Sublist.refl _
  few := Nat.zero_le _
  counted := rfl
  sized := fun c hc => absurd hc List.not_mem_nil
  remaining := by
    change _ = budget maxBytes - ((0 : Nat) : Int)
    rw [Int.natCast_zero, Int.sub_zero]
    rfl
  room := by
    change ((0 : Nat) : Int) ≤ maxBytes - 2048
    have hmin : (4096 : Int) ≤ maxBytes := h
    omega

theorem packCandidatesBy_concat (candidates : List ι) (c : ι) (maxBytes : Int) :
    packCandidatesBy encode isLimit (candidates ++ [c]) maxBytes =
      packCandidatesBy encode isLimit candidates maxBytes >>=
        fun s => packStepBy encode isLimit s c := by
  unfold packCandidatesBy
  rw [List.foldlM_append]
  simp

theorem packs_run (hm : Measured encode size) {maxBytes : Int}
    (hmin : contextMinResponseBytes ≤ maxBytes) {candidates : List ι} {packed : Packed ι}
    (h : packCandidatesBy encode isLimit candidates maxBytes = .ok packed) :
    Packs size maxBytes candidates packed := by
  induction candidates using List.reverseRecOn generalizing packed with
  | nil =>
    cases h
    exact packs_start hmin
  | append_singleton candidates c ih =>
    rw [packCandidatesBy_concat] at h
    obtain ⟨s, hs, hstep⟩ := bind_ok.mp h
    exact (pack_step hm (ih hs) hstep).1

/-- What is selected stays selected. -/
theorem selected_prefix (hm : Measured encode size) {maxBytes : Int}
    (hmin : contextMinResponseBytes ≤ maxBytes) (candidates rest : List ι) {packed : Packed ι}
    (h : packCandidatesBy encode isLimit (candidates ++ rest) maxBytes = .ok packed) :
    ∃ s, packCandidatesBy encode isLimit candidates maxBytes = .ok s ∧
      s.selected <+: packed.selected := by
  induction rest using List.reverseRecOn generalizing packed with
  | nil =>
    rw [List.append_nil] at h
    exact ⟨packed, h, List.prefix_rfl⟩
  | append_singleton rest c ih =>
    rw [← List.append_assoc, packCandidatesBy_concat] at h
    obtain ⟨s, hs, hstep⟩ := bind_ok.mp h
    obtain ⟨first, hfirst, hfront⟩ := ih hs
    refine ⟨first, hfirst, hfront.trans ?_⟩
    obtain ⟨-, htakes, hleaves⟩ := pack_step hm (packs_run hm hmin hs) hstep
    by_cases ht : Takes size maxBytes s.selected c
    · rw [htakes ht]
      exact List.prefix_append _ _
    · rw [hleaves ht]

/-- What became of one candidate among those before and behind it. -/
structure Round (pack : List ι → Except ε (Packed ι)) (takes : List ι → ι → Prop)
    (packed : Packed ι) (before : List ι) (c : ι) : Prop where
  round : ∃ s s', pack before = .ok s ∧ pack (before ++ [c]) = .ok s' ∧
    s'.selected <+: packed.selected ∧ (takes s.selected c → s'.selected = s.selected ++ [c]) ∧
    (¬ takes s.selected c → s'.selected = s.selected)

theorem pack_round (hm : Measured encode size) {maxBytes : Int}
    (hmin : contextMinResponseBytes ≤ maxBytes) (before after : List ι) (c : ι)
    {packed : Packed ι}
    (h : packCandidatesBy encode isLimit (before ++ c :: after) maxBytes = .ok packed) :
    Round (fun candidates => packCandidatesBy encode isLimit candidates maxBytes)
      (Takes size maxBytes) packed before c := by
  have happend : before ++ c :: after = before ++ [c] ++ after := by simp
  rw [happend] at h
  obtain ⟨s', hs', hfront⟩ := selected_prefix hm hmin (before ++ [c]) after h
  have hrun := hs'
  rw [packCandidatesBy_concat] at hrun
  obtain ⟨s, hs, hstep⟩ := bind_ok.mp hrun
  obtain ⟨-, htakes, hleaves⟩ := pack_step hm (packs_run hm hmin hs) hstep
  exact ⟨s, s', hs, hs', hfront, htakes, hleaves⟩

/-- The packer fails only as an encoding does, and never for want of room. -/
theorem pack_error {candidates : List ι} {maxBytes : Int} {e : ε}
    (h : packCandidatesBy encode isLimit candidates maxBytes = .error e) : isLimit e = false := by
  induction candidates using List.reverseRecOn with
  | nil => cases h
  | append_singleton candidates c ih =>
    rw [packCandidatesBy_concat] at h
    cases hs : packCandidatesBy encode isLimit candidates maxBytes with
    | error e' =>
      rw [hs] at h
      cases h
      exact ih hs
    | ok s =>
      rw [hs, ok_bind] at h
      unfold packStepBy at h
      split at h
      · cases h
      · simp only at h
        split at h
        · cases h
        · rename_i other _
          split at h
          · cases h
          · rename_i hno
            cases h
            exact eq_false_of_ne_true hno

end

section
variable {ι δ : Type} {dump : δ → Text} {payload : ι → Payload δ}

/-- The size of what a contract dumps, where it is a JSON value. -/
def payloadSize (dump : δ → Text) (payload : ι → Payload δ) (c : ι) : Option Nat :=
  (denoted dump (payload c)).map (fun v => (compactText v).length)

theorem encode_ok {p : Payload δ} {limit : Int} {text : List Char}
    (h : EvidenceJson.encodeEvidenceJson dump p (some limit) = .ok text) :
    ∃ v, denoted dump p = some v ∧ text = compactText v ∧ (text.length : Int) ≤ limit := by
  cases hv : denoted dump p with
  | some v =>
    rw [encode_limited hv] at h
    split at h
    · rename_i hfits
      cases h
      exact ⟨v, rfl, rfl, hfits⟩
    · cases h
  | none =>
    have hraised := jsonChunks_agrees dump p
    rw [hv] at hraised
    have hraised' : (jsonChunks dump p).raised = true := hraised
    unfold EvidenceJson.encodeEvidenceJson at h
    simp only [hraised', if_true] at h
    split at h
    · obtain ⟨encoded, -, hraise⟩ := bind_ok.mp h
      cases hraise
    · cases h

theorem payloads_measured (dump : δ → Text) (payload : ι → Payload δ) :
    Measured (encodeItem dump payload) (payloadSize dump payload) where
  encoded := by
    intro c limit text h
    obtain ⟨v, hv, rfl, hlimit⟩ := encode_ok h
    exact ⟨by rw [payloadSize, hv]; rfl, hlimit⟩
  fits := by
    intro c limit n hsize hn
    obtain ⟨v, hv, rfl⟩ := Option.map_eq_some_iff.mp hsize
    refine ⟨compactText v, ?_⟩
    rw [encodeItem, encode_limited hv, if_pos hn]

theorem denotedItems_map {items : List ι}
    (h : ∀ c ∈ items, ∃ n, payloadSize dump payload c = some n) :
    ∃ vs, denoted.denotedItems dump (items.map payload) = some vs ∧
      vs.map (fun v => (compactText v).length) =
        items.map (fun c => (payloadSize dump payload c).getD 0) := by
  induction items with
  | nil => exact ⟨[], rfl, rfl⟩
  | cons c items ih =>
    obtain ⟨n, hn⟩ := h c (by simp)
    obtain ⟨v, hv, rfl⟩ := Option.map_eq_some_iff.mp hn
    obtain ⟨vs, hvs, hsizes⟩ := ih (fun other hother => h other (by simp [hother]))
    refine ⟨v :: vs, ?_, ?_⟩
    · rw [List.map_cons, denoted.denotedItems, hv, hvs]
      rfl
    · rw [List.map_cons, List.map_cons, hsizes, hn]
      rfl

theorem denotedFields_append (xs ys : List (ObjectKey × Payload δ)) :
    denoted.denotedFields dump (xs ++ ys) =
      (denoted.denotedFields dump xs).bind (fun vs =>
        (denoted.denotedFields dump ys).map (vs ++ ·)) := by
  induction xs with
  | nil =>
    change _ = (some []).bind _
    rw [Option.bind_some, List.nil_append]
    cases denoted.denotedFields dump ys <;> rfl
  | cons p xs ih =>
    rw [List.cons_append, denoted.denotedFields, denoted.denotedFields, ih]
    cases p.1.text <;> cases denoted dump p.2 <;> cases denoted.denotedFields dump xs <;>
      cases denoted.denotedFields dump ys <;> rfl

/-- A result fits when its envelope does and its items keep to their budget. -/
theorem result_fits {envelope : List (ObjectKey × Payload δ)} {items : List ι} {maxBytes : Int}
    {text : List Char}
    (henvelope : EvidenceJson.encodeEvidenceJson dump (resultPayload payload envelope [])
      (some contextEnvelopeBytes) = .ok text)
    (hsized : ∀ c ∈ items, ∃ n, payloadSize dump payload c = some n)
    (hroom : (packedSize (payloadSize dump payload) items : Int) ≤ budget maxBytes) :
    ∃ text, EvidenceJson.encodeEvidenceJson dump (resultPayload payload envelope items)
      (some maxBytes) = .ok text := by
  obtain ⟨v, hv, rfl, hlimit⟩ := encode_ok henvelope
  obtain ⟨vs, hvs, hsizes⟩ := denotedItems_map hsized
  unfold resultPayload at hv ⊢
  obtain ⟨fields, hfields, rfl⟩ := Option.map_eq_some_iff.mp hv
  rw [denotedFields_append] at hfields
  obtain ⟨front, hfront, hback⟩ := Option.bind_eq_some_iff.mp hfields
  have hempty : fields = front ++ [(codePoints "items", .arr [])] := by
    obtain ⟨back, hitems, hback⟩ := Option.map_eq_some_iff.mp hback
    have hone : back = [(codePoints "items", .arr [])] := (Option.some.inj hitems).symm
    rw [← hback, hone]
  have hwhole : denoted dump (.obj (envelope ++
      [(.str (codePoints "items"), .arr (items.map payload))])) =
      some (.obj (front ++ [(codePoints "items", .arr vs)])) := by
    rw [denoted, denotedFields_append, hfront]
    simp only [denoted.denotedFields, denoted, hvs, ObjectKey.text, Option.bind_some,
      Option.map_some]
  refine ⟨_, (encode_limited hwhole maxBytes).trans (if_pos ?_)⟩
  have hlength := @length_write_items _ _ quoteText FloatText.text front
    (codePoints "items") vs
  change (compactText _).length = (compactText _).length + _ at hlength
  rw [hlength, ← hempty]
  change ((_ + joinedSize (vs.map (fun v => (compactText v).length)) : Nat) : Int) ≤ maxBytes
  rw [hsizes]
  unfold budget at hroom
  unfold packedSize at hroom
  push_cast
  omega

end

section
variable {ι : Type} {payload : ι → Value}

def readLimit : EvidenceReadError → Bool
  | .evidenceResponseLimit _ => true
  | _ => false

theorem packCandidates_eq (payload : ι → Value) (candidates : List ι) (maxBytes : Int) :
    packCandidates payload candidates maxBytes =
      packCandidatesBy (fun c limit => Core.encodeEvidenceJson (payload c) limit) readLimit
        candidates maxBytes := by
  unfold packCandidates packCandidatesBy
  congr 1
  funext s c
  unfold packStep packStepBy
  split
  · rfl
  · simp only
    cases h : Core.encodeEvidenceJson (payload c) (s.remaining - if s.selected = [] then 0 else 1)
      with
    | ok text => rfl
    | error e => cases e <;> rfl

theorem packStepBy_ofValue {δ : Type} (dump : δ → Text) (s : Packed ι) {c : ι}
    (h : Spelled (payload c)) :
    packStepBy (encodeItem dump (fun c => ofValue (payload c))) EncodeError.isLimit s c =
      (packStepBy (fun c limit => Core.encodeEvidenceJson (payload c) limit) readLimit s c).mapError
        .read := by
  unfold packStepBy encodeItem
  split
  · rfl
  · simp only [encoders_agree dump (payload c) h]
    cases Core.encodeEvidenceJson (payload c) (s.remaining - if s.selected = [] then 0 else 1) with
    | ok text => rfl
    | error e => cases e <;> rfl

/-- Candidates are packed alike as typed values and as what their contract dumps. -/
theorem packPayloads_ofValue {δ : Type} (dump : δ → Text) {candidates : List ι}
    (h : ∀ c ∈ candidates, Spelled (payload c)) (maxBytes : Int) :
    packPayloads dump (fun c => ofValue (payload c)) candidates maxBytes =
      (packCandidates payload candidates maxBytes).mapError .read := by
  rw [packCandidates_eq]
  unfold packPayloads packCandidatesBy
  generalize ({ remaining := maxBytes - contextEnvelopeBytes } : Packed ι) = s
  induction candidates generalizing s with
  | nil => rfl
  | cons c rest ih =>
    rw [List.foldlM_cons, List.foldlM_cons, packStepBy_ofValue dump s (h c List.mem_cons_self)]
    cases packStepBy (fun c limit => Core.encodeEvidenceJson (payload c) limit) readLimit s c with
    | error e => rfl
    | ok next => exact ih (fun c hc => h c (List.mem_cons_of_mem _ hc)) next

theorem value_encode_ok {v : Value} {limit : Int} {text : List Char} :
    Core.encodeEvidenceJson v limit = .ok text ↔ v.allFloats JsonFloat.finite = true ∧
      text = v.write compactWriter ∧ (text.length : Int) ≤ limit := by
  unfold Core.encodeEvidenceJson validateEvidenceNumbers
  by_cases hfinite : v.allFloats JsonFloat.finite = true
  · rw [if_pos hfinite]
    by_cases hlimit : limit < ((v.write compactWriter).length : Int)
    · simp only [ok_bind, if_pos hlimit]
      constructor
      · intro h
        cases h
      · intro h
        obtain ⟨-, rfl, hle⟩ := h
        omega
    · simp only [ok_bind, if_neg hlimit]
      constructor
      · intro h
        cases h
        exact ⟨hfinite, rfl, by omega⟩
      · intro h
        obtain ⟨-, rfl, -⟩ := h
        rfl
  · rw [if_neg hfinite]
    constructor
    · intro h
      cases h
    · intro h
      exact absurd h.1 hfinite

def valueSize (payload : ι → Value) (c : ι) : Option Nat :=
  if (payload c).allFloats JsonFloat.finite then some ((payload c).write compactWriter).length
  else none

theorem values_measured (payload : ι → Value) :
    Measured (fun c limit => Core.encodeEvidenceJson (payload c) limit) (valueSize payload) where
  encoded := by
    intro c limit text h
    obtain ⟨hfinite, rfl, hlimit⟩ := value_encode_ok.mp h
    exact ⟨if_pos hfinite, hlimit⟩
  fits := by
    intro c limit n hsize hn
    unfold valueSize at hsize
    split at hsize
    · rename_i hfinite
      cases hsize
      exact ⟨_, value_encode_ok.mpr ⟨hfinite, rfl, hn⟩⟩
    · cases hsize

theorem values_fit {fields : List (String × Value)} {key : String} {items : List ι}
    {maxBytes : Int} {text : List Char}
    (henvelope : Core.encodeEvidenceJson (.obj (fields ++ [(key, .arr [])]))
      contextEnvelopeBytes = .ok text)
    (hsized : ∀ c ∈ items, ∃ n, valueSize payload c = some n)
    (hroom : (packedSize (valueSize payload) items : Int) ≤ budget maxBytes) :
    ∃ text, Core.encodeEvidenceJson (.obj (fields ++ [(key, .arr (items.map payload))]))
      maxBytes = .ok text := by
  obtain ⟨hfinite, rfl, hlimit⟩ := value_encode_ok.mp henvelope
  have hitem : ∀ c ∈ items, (payload c).allFloats JsonFloat.finite = true ∧
      (valueSize payload c).getD 0 = ((payload c).write compactWriter).length := by
    intro c hc
    obtain ⟨n, hn⟩ := hsized c hc
    unfold valueSize at hn ⊢
    split at hn
    · rename_i h
      exact ⟨h, by rw [if_pos h]; rfl⟩
    · cases hn
  refine ⟨_, value_encode_ok.mpr ⟨?_, rfl, ?_⟩⟩
  · rw [Json.allFloats, Json.fieldsFloats_append, Bool.and_eq_true] at hfinite ⊢
    refine ⟨hfinite.1, ?_⟩
    rw [Json.allFloats.fieldsFloats, Json.allFloats, Json.allFloats.fieldsFloats, Bool.and_true,
      Json.itemsFloats_iff]
    intro item hmem
    obtain ⟨c, hc, rfl⟩ := List.mem_map.mp hmem
    exact (hitem c hc).1
  · have hlength := @length_write_items _ _ quoteAscii
      (fun x : JsonFloat => x.repr.toList) fields key (items.map payload)
    have hsizes : (items.map payload).map (fun v => (v.write compactWriter).length) =
        items.map (fun c => (valueSize payload c).getD 0) := by
      rw [List.map_map]
      apply List.map_congr_left
      intro c hc
      exact (hitem c hc).2.symm
    change (Json.write compactWriter _).length = (Json.write compactWriter _).length + joinedSize
      ((items.map payload).map (fun v => (v.write compactWriter).length)) at hlength
    rw [hlength, hsizes]
    unfold budget packedSize at hroom
    push_cast
    omega

end

/-- A computation refuses a response for its size only while it checks the envelope. -/
def EnvelopeOnly {α : Type} (x : Except RetrievalError α) : Prop :=
  ∀ limit, x = .error (.read (.evidenceResponseLimit limit)) → limit = contextEnvelopeBytes

section
variable {α β σ : Type}

theorem envelopeOnly_ok (a : α) : EnvelopeOnly (.ok a : Except RetrievalError α) := by
  intro limit h
  cases h

theorem EnvelopeOnly.bind {x : Except RetrievalError α} {f : α → Except RetrievalError β}
    (hx : EnvelopeOnly x) (hf : ∀ a, x = .ok a → EnvelopeOnly (f a)) : EnvelopeOnly (x >>= f) := by
  cases x with
  | error e =>
    intro limit h
    cases h
    exact hx limit rfl
  | ok a => exact hf a rfl

theorem EnvelopeOnly.foldlM {f : σ → α → Except RetrievalError σ}
    (hf : ∀ s a, EnvelopeOnly (f s a)) (xs : List α) (s : σ) : EnvelopeOnly (xs.foldlM f s) := by
  induction xs generalizing s with
  | nil => exact envelopeOnly_ok s
  | cons x xs ih =>
    rw [List.foldlM_cons]
    exact (hf s x).bind (fun s' _ => ih s')

theorem EnvelopeOnly.ite {c : Prop} [Decidable c] {x y : Except RetrievalError α}
    (hx : EnvelopeOnly x) (hy : EnvelopeOnly y) : EnvelopeOnly (if c then x else y) := by
  split
  · exact hx
  · exact hy

theorem envelopeOnly_error {e : RetrievalError}
    (h : ∀ limit, e ≠ .read (.evidenceResponseLimit limit)) :
    EnvelopeOnly (.error e : Except RetrievalError α) := by
  intro limit he
  exact absurd (Except.error.inj he) (h limit)

end

/-- Packed items never make a result longer than the budget of its response. -/
theorem checkResponse_envelopeOnly {ι : Type} {payload : ι → Value}
    {fields : List (String × Value)} {key : String} {ranked : List ι} {packed : Packed ι}
    {maxBytes : Int} (hpacks : Packs (valueSize payload) maxBytes ranked packed) :
    EnvelopeOnly (checkResponse (.obj (fields ++ [(key, .arr [])]))
      (.obj (fields ++ [(key, .arr (packed.selected.map payload))])) maxBytes) := by
  unfold checkResponse
  cases hfirst : Core.encodeEvidenceJson (.obj (fields ++ [(key, .arr [])]))
      contextEnvelopeBytes with
  | error e =>
    intro limit h
    cases h
    unfold Core.encodeEvidenceJson validateEvidenceNumbers at hfirst
    split at hfirst
    · simp only [ok_bind] at hfirst
      split at hfirst
      · cases hfirst
        rfl
      · cases hfirst
    · cases hfirst
  | ok text =>
    obtain ⟨whole, hwhole⟩ := values_fit hfirst hpacks.sized hpacks.room
    rw [hwhole]
    exact envelopeOnly_ok ()

theorem packed_envelopeOnly {ι β : Type} {payload : ι → Value} {ranked : List ι} {maxBytes : Int}
    (hmin : contextMinResponseBytes ≤ maxBytes) {f : Packed ι → Except RetrievalError β}
    (hf : ∀ packed, Packs (valueSize payload) maxBytes ranked packed → EnvelopeOnly (f packed)) :
    EnvelopeOnly ((packCandidates payload ranked maxBytes).mapError .read >>= f) := by
  cases hpack : packCandidates payload ranked maxBytes with
  | error e =>
    refine envelopeOnly_error ?_
    intro limit h
    rw [packCandidates_eq] at hpack
    have hno := pack_error hpack
    rw [RetrievalError.read.inj h] at hno
    cases hno
  | ok packed =>
    rw [packCandidates_eq] at hpack
    exact hf packed (packs_run (values_measured payload) hmin hpack)

theorem stateLimit_envelopeOnly {α : Type} :
    EnvelopeOnly (.error stateLimit : Except RetrievalError α) :=
  envelopeOnly_error (fun _ h => by cases h)

theorem checkStateBytes_envelopeOnly (size : Nat) : EnvelopeOnly (checkStateBytes size) :=
  stateLimit_envelopeOnly.ite (envelopeOnly_ok ())

theorem strictJson_error {v : Value} {e : EvidenceReadError} (h : strictJson v = .error e) :
    e = .nonFiniteNumber := by
  unfold strictJson validateEvidenceNumbers at h
  split at h
  · cases h
  · cases h
    rfl

theorem contentKey_envelopeOnly (item : EvidenceReadItem) :
    EnvelopeOnly ((contentKey item).mapError .read) := by
  cases h : contentKey item with
  | ok key => exact envelopeOnly_ok key
  | error e =>
    rw [strictJson_error h]
    exact envelopeOnly_error (fun _ he => by cases he)

theorem stateEncodingSize_envelopeOnly (v : Value) : EnvelopeOnly (stateEncodingSize v) := by
  unfold stateEncodingSize
  split
  · exact envelopeOnly_ok _
  · exact stateLimit_envelopeOnly
  · rename_i e hno _
    refine envelopeOnly_error ?_
    intro limit h
    exact hno limit (RetrievalError.read.inj h)

theorem contextQueryTokens_envelopeOnly (query : String) :
    EnvelopeOnly (contextQueryTokens query) := by
  have hinvalid : EnvelopeOnly
      (.error .invalidQuery : Except RetrievalError (Finset (List Char))) :=
    envelopeOnly_error (fun _ h => by cases h)
  exact hinvalid.ite (hinvalid.ite (hinvalid.ite (envelopeOnly_ok _)))

theorem budgeted_envelopeOnly {α : Type} {maxBytes : Int} {f : Unit → Except RetrievalError α}
    (hf : contextMinResponseBytes ≤ maxBytes → EnvelopeOnly (f ())) :
    EnvelopeOnly (validateResponseBudget maxBytes >>= f) := by
  unfold validateResponseBudget
  split
  · rename_i h
    exact hf h.1
  · exact envelopeOnly_error (fun _ h => by cases h)

theorem distinctStep_envelopeOnly (candidates : List ContextRetrievalItem) (s : Distinct) :
    EnvelopeOnly ((candidates.foldlM distinctStep s).mapError .read) := by
  have hrun : ∀ e, candidates.foldlM distinctStep s = .error e → e = .nonFiniteNumber := by
    induction candidates generalizing s with
    | nil =>
      intro e h
      cases h
    | cons c rest ih =>
      intro e h
      rw [List.foldlM_cons] at h
      cases hstep : distinctStep s c with
      | ok s' =>
        rw [hstep] at h
        exact ih s' e h
      | error e' =>
        rw [hstep] at h
        cases h
        unfold distinctStep at hstep
        cases hkey : contentKey c.evidence with
        | error e' =>
          rw [hkey] at hstep
          cases hstep
          exact strictJson_error hkey
        | ok key =>
          rw [hkey, ok_bind] at hstep
          split at hstep <;> cases hstep
  cases h : candidates.foldlM distinctStep s with
  | ok distinct => exact envelopeOnly_ok distinct
  | error e =>
    rw [hrun e h]
    exact envelopeOnly_error (fun _ he => by cases he)

section
variable [DatetimeJson] {maxBytes : Int}

/-- The fields of a result before its items. -/
def envelopeFields : Value → List (String × Value)
  | .obj fields => fields.dropLast
  | _ => []

theorem retrieval_payload (r : ContextRetrievalResult) :
    ∃ fields, r.payload = .obj (fields ++
        [("items", .arr (r.items.map ContextRetrievalItem.payload))]) ∧
      { r with items := [] }.payload = .obj (fields ++ [("items", .arr [])]) :=
  ⟨envelopeFields r.payload, rfl, rfl⟩

theorem discovery_payload (r : ContextDiscoveryResult) :
    ∃ fields, r.payload = .obj (fields ++
        [("items", .arr (r.items.map ContextDiscoveryItem.payload))]) ∧
      { r with items := [] }.payload = .obj (fields ++ [("items", .arr [])]) :=
  ⟨envelopeFields r.payload, rfl, rfl⟩

theorem retrieval_check {r : ContextRetrievalResult} {ranked : List ContextRetrievalItem}
    {packed : Packed ContextRetrievalItem}
    (hpacks : Packs (valueSize ContextRetrievalItem.payload) maxBytes ranked packed)
    (hitems : r.items = packed.selected) :
    EnvelopeOnly (checkResponse { r with items := [] }.payload r.payload maxBytes) := by
  obtain ⟨fields, hwhole, henvelope⟩ := retrieval_payload r
  rw [hwhole, henvelope, hitems]
  exact checkResponse_envelopeOnly hpacks

theorem discovery_check {r : ContextDiscoveryResult} {ranked : List ContextDiscoveryItem}
    {packed : Packed ContextDiscoveryItem}
    (hpacks : Packs (valueSize ContextDiscoveryItem.payload) maxBytes ranked packed)
    (hitems : r.items = packed.selected) :
    EnvelopeOnly (checkResponse { r with items := [] }.payload r.payload maxBytes) := by
  obtain ⟨fields, hwhole, henvelope⟩ := discovery_payload r
  rw [hwhole, henvelope, hitems]
  exact checkResponse_envelopeOnly hpacks

theorem retrievalResult_envelopeOnly (hmin : contextMinResponseBytes ≤ maxBytes)
    (policy : ContextPolicy) (sessionId : String) (revision visible quarantined scanned : Nat)
    (skipped : Skipped) (anyCandidate : Bool) (ranked : List ContextRetrievalItem) :
    EnvelopeOnly (retrievalResult policy sessionId revision visible quarantined scanned skipped
      anyCandidate ranked maxBytes) := by
  unfold retrievalResult
  refine packed_envelopeOnly hmin ?_
  intro packed hpacks
  exact (retrieval_check hpacks rfl).bind (fun _ _ => envelopeOnly_ok _)

theorem discoveryResult_envelopeOnly (hmin : contextMinResponseBytes ≤ maxBytes)
    (policy : ContextPolicy) (revision : Nat) (commit : Option ContextCommitAnchor)
    (authorized found visible quarantined scanned matched : Nat) (skipped : Skipped)
    (candidates : List ContextDiscoveryItem) :
    EnvelopeOnly (discoveryResult policy revision commit authorized found visible quarantined
      scanned matched skipped candidates maxBytes) := by
  unfold discoveryResult
  refine packed_envelopeOnly hmin ?_
  intro packed hpacks
  exact (discovery_check hpacks rfl).bind (fun _ _ => envelopeOnly_ok _)

theorem groupStep_envelopeOnly (sessionId : String) (tokens : Finset (List Char)) (s : GroupState)
    (entry : String × EvidenceReadItem) : EnvelopeOnly (groupStep sessionId tokens s entry) := by
  unfold groupStep
  simp only
  split
  · exact envelopeOnly_error (fun _ h => by cases h)
  · split
    · exact envelopeOnly_ok _
    · refine (contentKey_envelopeOnly _).bind (fun key _ => ?_)
      refine (stateEncodingSize_envelopeOnly _).bind (fun size _ => ?_)
      split
      · split
        · exact stateLimit_envelopeOnly
        · exact (checkStateBytes_envelopeOnly _).bind (fun _ _ => envelopeOnly_ok _)
      · exact (checkStateBytes_envelopeOnly _).bind (fun _ _ => envelopeOnly_ok _)

theorem discoverStep_envelopeOnly (tokens : Finset (List Char)) (s : DiscoveryState)
    (entry : String × EvidenceReadItem) : EnvelopeOnly (discoverStep tokens s entry) := by
  unfold discoverStep
  simp only
  split
  · exact envelopeOnly_error (fun _ h => by cases h)
  · split
    · exact envelopeOnly_ok _
    · refine (stateEncodingSize_envelopeOnly _).bind (fun size _ => ?_)
      exact (checkStateBytes_envelopeOnly _).bind (fun _ _ => envelopeOnly_ok _)

theorem retrieveContextStream_envelopeOnly (metadata : ContextScanMetadata)
    (items : List (String × EvidenceReadItem)) (query : String) (maxBytes : Int)
    (policy : ContextPolicy) :
    EnvelopeOnly (retrieveContextStream metadata items query maxBytes policy) := by
  unfold retrieveContextStream
  refine (contextQueryTokens_envelopeOnly query).bind (fun tokens _ => ?_)
  refine budgeted_envelopeOnly (fun hmin => ?_)
  split
  · refine (EnvelopeOnly.foldlM (groupStep_envelopeOnly _ tokens) items {}).bind (fun s _ => ?_)
    exact retrievalResult_envelopeOnly hmin _ _ _ _ _ _ _ _ _
  · exact envelopeOnly_error (fun _ h => by cases h)

theorem retrieveContext_envelopeOnly (source : EvidenceContextSource) (query : String)
    (maxBytes : Int) (policy : ContextPolicy) :
    EnvelopeOnly (retrieveContext source query maxBytes policy) := by
  unfold retrieveContext
  refine (contextQueryTokens_envelopeOnly query).bind (fun tokens _ => ?_)
  refine budgeted_envelopeOnly (fun hmin => ?_)
  refine (distinctStep_envelopeOnly _ _).bind (fun distinct _ => ?_)
  exact retrievalResult_envelopeOnly hmin _ _ _ _ _ _ _ _ _

theorem discoverContextStream_envelopeOnly (metadata : ContextScanMetadata)
    (items : List (String × EvidenceReadItem)) (query : String) (maxBytes : Int)
    (policy : ContextPolicy) :
    EnvelopeOnly (discoverContextStream metadata items query maxBytes policy) := by
  unfold discoverContextStream
  refine (contextQueryTokens_envelopeOnly query).bind (fun tokens _ => ?_)
  refine budgeted_envelopeOnly (fun hmin => ?_)
  refine (checkStateBytes_envelopeOnly _).bind (fun _ _ => ?_)
  refine (EnvelopeOnly.foldlM (discoverStep_envelopeOnly tokens) items _).bind (fun s _ => ?_)
  exact discoveryResult_envelopeOnly hmin _ _ _ _ _ _ _ _ _ _ _

theorem discoverContext_envelopeOnly (source : ContextDiscoverySource) (query : String)
    (maxBytes : Int) (policy : ContextPolicy) :
    EnvelopeOnly (discoverContext source query maxBytes policy) := by
  unfold discoverContext
  refine (contextQueryTokens_envelopeOnly query).bind (fun tokens _ => ?_)
  refine budgeted_envelopeOnly (fun hmin => ?_)
  exact discoveryResult_envelopeOnly hmin _ _ _ _ _ _ _ _ _ _ _

end

theorem admitted_min {maxBytes : Int} (h : validateResponseBudget maxBytes = .ok ()) :
    contextMinResponseBytes ≤ maxBytes := by
  unfold validateResponseBudget at h
  split at h
  · rename_i hmin
    exact hmin.1
  · cases h

section
variable {ι δ : Type} {dump : δ → Text} {payload : ι → Payload δ} {ranked : List ι}
  {maxBytes : Int}

theorem packPayloads_packs (hmin : contextMinResponseBytes ≤ maxBytes) {packed : Packed ι}
    (h : packPayloads dump payload ranked maxBytes = .ok packed) :
    Packs (payloadSize dump payload) maxBytes ranked packed :=
  packs_run (payloads_measured dump payload) hmin h

theorem encode_limit {p : Payload δ} {limit limit' : Int}
    (h : EvidenceJson.encodeEvidenceJson dump p (some limit) =
      .error (.read (.evidenceResponseLimit limit'))) : limit' = limit := by
  have hbounded : ∀ (chunks : List (List Char)) (kept : List Char) (e : EncodeError),
      bounded (some limit) chunks kept = .error e → e = .read (.evidenceResponseLimit limit) := by
    intro chunks
    induction chunks with
    | nil =>
      intro kept e he
      cases he
    | cons chunk rest ih =>
      intro kept e he
      rw [bounded] at he
      split at he
      · cases he
        rfl
      · exact ih _ _ he
  unfold EvidenceJson.encodeEvidenceJson at h
  split at h
  · simp only at h
    cases hb : bounded (some limit) (jsonChunks dump p).chunks [] with
    | error e =>
      rw [hb] at h
      cases h
      cases hbounded _ _ _ hb
      rfl
    | ok text =>
      rw [hb, ok_bind] at h
      split at h
      · cases h
      · cases h
  · cases h

/-- The packing and the final encoding never ask for more room than there is. -/
theorem packedResult_limit (hmin : contextMinResponseBytes ≤ maxBytes)
    (envelope : Packed ι → List (ObjectKey × Payload δ)) {limit : Int}
    (h : packedResult dump payload envelope ranked maxBytes =
      .error (.read (.evidenceResponseLimit limit))) : limit = contextEnvelopeBytes := by
  unfold packedResult at h
  cases hpack : packPayloads dump payload ranked maxBytes with
  | error e =>
    rw [hpack] at h
    have hno := pack_error hpack
    rw [Except.error.inj h] at hno
    cases hno
  | ok packed =>
    rw [hpack, ok_bind] at h
    cases hfirst : EvidenceJson.encodeEvidenceJson dump
        (resultPayload payload (envelope packed) []) (some contextEnvelopeBytes) with
    | error e =>
      rw [hfirst] at h
      rw [Except.error.inj h] at hfirst
      exact encode_limit hfirst
    | ok text =>
      have hpacks := packPayloads_packs hmin hpack
      obtain ⟨whole, hwhole⟩ := result_fits hfirst hpacks.sized hpacks.room
      rw [hfirst, ok_bind, hwhole] at h
      cases h

end

/-- Ranked candidates are packed greedily into their budget, so that a result whose envelope keeps
to its own never exceeds the response. -/
theorem context_packing_fits [DatetimeJson] {ι δ : Type} (dump : δ → Text)
    (payload : ι → Payload δ) :
    (∀ (ranked : List ι) (maxBytes : Int) (packed : Packed ι),
      validateResponseBudget maxBytes = .ok () →
      packPayloads dump payload ranked maxBytes = .ok packed →
      Packs (payloadSize dump payload) maxBytes ranked packed ∧
      (∀ before c after, ranked = before ++ c :: after →
        Round (fun candidates => packPayloads dump payload candidates maxBytes)
          (Takes (payloadSize dump payload) maxBytes) packed before c) ∧
      ∀ (envelope : List (ObjectKey × Payload δ)) (text : List Char),
        EvidenceJson.encodeEvidenceJson dump (resultPayload payload envelope [])
          (some contextEnvelopeBytes) = .ok text →
        ∃ text, EvidenceJson.encodeEvidenceJson dump
          (resultPayload payload envelope packed.selected) (some maxBytes) = .ok text) ∧
    (∀ (envelope : Packed ι → List (ObjectKey × Payload δ)) (ranked : List ι)
      (maxBytes limit : Int), validateResponseBudget maxBytes = .ok () →
      packedResult dump payload envelope ranked maxBytes =
        .error (.read (.evidenceResponseLimit limit)) → limit = contextEnvelopeBytes) ∧
    (∀ metadata items query maxBytes policy,
      EnvelopeOnly (retrieveContextStream metadata items query maxBytes policy)) ∧
    (∀ source query maxBytes policy,
      EnvelopeOnly (retrieveContext source query maxBytes policy)) ∧
    (∀ metadata items query maxBytes policy,
      EnvelopeOnly (discoverContextStream metadata items query maxBytes policy)) ∧
    ∀ source query maxBytes policy,
      EnvelopeOnly (discoverContext source query maxBytes policy) := by
  refine ⟨?_, ?_, retrieveContextStream_envelopeOnly, retrieveContext_envelopeOnly,
    discoverContextStream_envelopeOnly, discoverContext_envelopeOnly⟩
  · intro ranked maxBytes packed hbudget h
    have hmin := admitted_min hbudget
    have hpacks := packPayloads_packs hmin h
    refine ⟨hpacks, ?_, ?_⟩
    · intro before c after hranked
      rw [hranked] at h
      exact pack_round (payloads_measured dump payload) hmin before after c h
    · intro envelope text henvelope
      exact result_fits henvelope hpacks.sized hpacks.room
  · intro envelope ranked maxBytes limit hbudget h
    exact packedResult_limit (admitted_min hbudget) envelope h

@[reducible] def spelledOut : DatetimeJson := ⟨AwareDatetime.isoformat⟩

/-- An item that is longer than the whole budget of items, and a short one. -/
def longAndShort : List Text := [List.replicate 2100 97, codePoints "b"]

def queryEnvelope : List (ObjectKey × Payload Empty) :=
  [(.str (codePoints "query"), .str (codePoints "parser"))]

/-- An envelope that is longer than the budget of envelopes. -/
def longEnvelope : List (ObjectKey × Payload Empty) :=
  [(.str (codePoints "query"), .str (List.replicate 2100 97))]

theorem short_item_packed :
    (∃ packed, packPayloads Empty.elim Payload.str longAndShort 4096 = .ok packed ∧
      packed.selected = [codePoints "b"] ∧
      Packs (payloadSize Empty.elim Payload.str) 4096 longAndShort packed ∧
      ∃ text, EvidenceJson.encodeEvidenceJson Empty.elim
        (resultPayload Payload.str queryEnvelope packed.selected) (some 4096) = .ok text) ∧
    ∃ limit, packedResult Empty.elim Payload.str (fun _ => longEnvelope) longAndShort 4096 =
      .error (.read (.evidenceResponseLimit limit)) ∧ limit = contextEnvelopeBytes := by
  let _ := spelledOut
  obtain ⟨hpacks, hlimit, -⟩ := context_packing_fits Empty.elim Payload.str
  have hbudget : validateResponseBudget 4096 = .ok () := by decide
  constructor
  · have hok : (packPayloads Empty.elim Payload.str longAndShort 4096).isOk = true := by
      decide +kernel
    obtain ⟨packed, hpacked⟩ := ok_of_isOk hok
    have hselected : (packPayloads Empty.elim Payload.str longAndShort 4096).toOption.map
        Packed.selected = some [codePoints "b"] := by decide +kernel
    rw [hpacked] at hselected
    obtain ⟨hpacks, -, hfits⟩ := hpacks longAndShort 4096 packed hbudget hpacked
    have henvelope : (EvidenceJson.encodeEvidenceJson Empty.elim
        (resultPayload Payload.str queryEnvelope []) (some contextEnvelopeBytes)).isOk = true := by
      decide +kernel
    obtain ⟨text, htext⟩ := ok_of_isOk henvelope
    exact ⟨packed, hpacked, Option.some.inj hselected, hpacks, hfits queryEnvelope text htext⟩
  · have hrefused : (packedResult Empty.elim Payload.str (fun _ => longEnvelope) longAndShort
        4096).map (fun _ => ()) = .error (.read (.evidenceResponseLimit 2048)) := by
      decide +kernel
    cases h : packedResult Empty.elim Payload.str (fun _ => longEnvelope) longAndShort 4096 with
    | ok result =>
      rw [h] at hrefused
      cases hrefused
    | error e =>
      rw [h] at hrefused
      obtain rfl := Except.error.inj hrefused
      exact ⟨2048, rfl, hlimit (fun _ => longEnvelope) longAndShort 4096 2048 hbudget h⟩

end Sediment.Proofs.ContextPacking

import Sediment.Base.FirstWins
import Sediment.Proofs.DeliveryRuns

namespace Sediment.Proofs.DeliveryRecords
open Base Decimals JsonScan Journal Transitions
open Sediment.Core TextMethods Urls
open Cli.Delivery DeliveryIdentity DeliveryDestination DeliveryEntry DeliveryEffects
open DeliveryRoundTrip DeliveryMaintenance DeliverySections DeliveryRuns

/-- A record of scalars, as it is written and as it is decoded. -/
structure Written (fs : List (Text × List Char)) (ps : List (Text × JsonValue)) : Prop where
  scans : List.Forall₂ FieldScans fs ps
  keys : (ps.map Prod.fst).Nodup
  printable : ∀ f ∈ fs, Printable f.2

theorem Written.decoded [JsonBytes] {fs : List (Text × List Char)} {ps : List (Text × JsonValue)}
    (h : Written fs ps) (d : Nat) :
    Cli.Delivery.decoded (d + 1) ((flatText fs).flatMap String.utf8EncodeChar) =
      some (.obj ps) := by
  have hprint := flatText_printable h.printable
  have hloads : strictLoads (d + 1) (flatText fs ++ []) = some (.obj ps) :=
    strictLoads_fields h.scans h.keys rfl
  rw [List.append_nil] at hloads
  rw [utf8_printable hprint, decoded_ascii (printable_ascii hprint)]
  exact hloads

theorem Written.length {fs : List (Text × List Char)} {ps : List (Text × JsonValue)}
    (h : Written fs ps) : ((flatText fs).flatMap String.utf8EncodeChar).length =
      (flatText fs).length := by
  rw [utf8_printable (flatText_printable h.printable), List.length_map]

theorem Written.lookup {fs : List (Text × List Char)} {ps : List (Text × JsonValue)}
    (h : Written fs ps) {key : Text} {v : JsonValue} (hm : (key, v) ∈ ps) :
    ps.lookup key = some v := lookup_of_mem h.keys hm

theorem length_flatText (fs : List (Text × List Char)) :
    (flatText fs).length ≤ 2 + (fs.map (fun f => (quoteText f.1).length + f.2.length + 2)).sum := by
  have hjoin := length_commaJoined_le (fs.map fieldText)
  have hsum : (fs.map fieldText).map (fun item => item.length + 1) =
      fs.map (fun f => (quoteText f.1).length + f.2.length + 2) := by
    rw [List.map_map]
    apply List.map_congr_left
    intro f _
    simp only [Function.comp_apply, fieldText, List.length_append, List.length_cons]
    omega
  rw [hsum] at hjoin
  rw [flatText, List.length_append, List.length_cons, List.length_singleton]
  omega

theorem length_quoteText_wide (t : Text) : (quoteText t).length ≤ 2 + 12 * t.length := by
  have hunits : (t.flatMap utf16).length ≤ 2 * t.length := by
    induction t with
    | nil => simp
    | cons n t ih =>
      have hone : (utf16 n).length ≤ 2 := by
        unfold utf16
        split <;> simp
      rw [List.flatMap_cons, List.length_append, List.length_cons]
      omega
  have hescaped : ∀ us : List Nat, (us.flatMap escapeUnit).length ≤ 6 * us.length := by
    intro us
    induction us with
    | nil => simp
    | cons u us ih =>
      have := length_escapeUnit u
      rw [List.flatMap_cons, List.length_append, List.length_cons]
      omega
  have := hescaped (t.flatMap utf16)
  rw [quoteText, List.length_append, List.length_cons, List.length_singleton]
  omega

theorem Status.mem_all (s : Status) : s ∈ Status.all := by cases s <;> decide

theorem Reason.mem_all (r : Reason) : r ∈ Reason.all := by cases r <;> decide

theorem status_ofText (s : Status) : Status.ofText (codePoints s.text) = some s := by
  have hnodup : (Status.all.map (fun s => codePoints s.text)).Nodup := by decide +kernel
  exact find?_of_nodup hnodup (Status.mem_all s)

theorem reason_ofText (r : Reason) : Reason.ofText (codePoints r.text) = some r := by
  have hnodup : (Reason.all.map (fun r => codePoints r.text)).Nodup := by decide +kernel
  exact find?_of_nodup hnodup (Reason.mem_all r)

theorem reason_short (r : Reason) : (codePoints r.text).length ≤ 23 := by
  have hall : ∀ r ∈ Reason.all, (codePoints r.text).length ≤ 23 := by decide +kernel
  exact hall r (Reason.mem_all r)

theorem status_short (s : Status) : (codePoints s.text).length ≤ 12 := by
  have hall : ∀ s ∈ Status.all, (codePoints s.text).length ≤ 12 := by decide +kernel
  exact hall s (Status.mem_all s)

theorem fieldKey_scans {key : String} {text : List Char} {v : JsonValue} (h : Scans text v) :
    FieldScans (codePoints key, text) (codePoints key, v) :=
  ⟨rfl, plain_codePoints key, h⟩

theorem word_scans (s : String) : Scans (quoteText (codePoints s)) (.str (codePoints s)) :=
  (stays_str (plain_codePoints s)).scans

theorem version_scans : Scans (Nat.toDigits 10 formatVersion) (.int formatVersion) :=
  (stays_nat (Nat.one_lt_pow (by decide) (by decide))).scans

section
variable {τ : Type} [Clock τ]

/-- What a receipt without a fact is decoded as. -/
def plainValues (r : Receipt τ) : List (Text × JsonValue) :=
  [(codePoints "completed_at", .float (ClockText.repr r.completedAt)),
   (codePoints "delivery_id", .str (codes r.disposition.deliveryId)),
   (codePoints "format_version", .int formatVersion),
   (codePoints "reason", .str (codePoints r.disposition.reason.text)),
   (codePoints "status", .str (codePoints r.disposition.status.text))]

theorem receiptKeys_nodup : receiptKeys.Nodup := by decide +kernel

theorem plain_fields {r : Receipt τ} (hfact : r.disposition.factId = none) : r.fields =
    [(codePoints "completed_at", ClockText.repr r.completedAt),
     (codePoints "delivery_id", quoteText (codes r.disposition.deliveryId)),
     (codePoints "format_version", Nat.toDigits 10 formatVersion),
     (codePoints "reason", quoteText (codePoints r.disposition.reason.text)),
     (codePoints "status", quoteText (codePoints r.disposition.status.text))] := by
  rw [Receipt.fields, hfact]
  rfl

theorem plain_written (hc : ClockLaws τ) {r : Receipt τ} (hfact : r.disposition.factId = none) :
    Written r.fields (plainValues r) := by
  rw [plain_fields hfact]
  refine ⟨?_, receiptKeys_nodup, ?_⟩
  · exact .cons (fieldKey_scans (hc.stays _).scans)
      (.cons (fieldKey_scans (stays_str (reread_codes _)).scans)
      (.cons (fieldKey_scans version_scans) (.cons (fieldKey_scans (word_scans _))
      (.cons (fieldKey_scans (word_scans _)) .nil))))
  · intro f hf
    simp only [List.mem_cons, List.not_mem_nil, or_false] at hf
    rcases hf with rfl | rfl | rfl | rfl | rfl
    · exact hc.printable _
    · exact quoteText_printable _
    · exact digits_printable formatVersion
    · exact quoteText_printable _
    · exact quoteText_printable _

/-- What a receipt with a fact is decoded as. -/
def factValues (r : Receipt τ) (factId : Text) (stored : Bool) : List (Text × JsonValue) :=
  [(codePoints "completed_at", .float (ClockText.repr r.completedAt)),
   (codePoints "delivery_id", .str (codes r.disposition.deliveryId)),
   (codePoints "fact_id", .str (reread factId)), (codePoints "format_version", .int formatVersion),
   (codePoints "reason", .str (codePoints r.disposition.reason.text)),
   (codePoints "status", .str (codePoints r.disposition.status.text)),
   (codePoints "stored", .bool stored)]

theorem factKeys_nodup : (["completed_at", "delivery_id", "fact_id", "format_version", "reason",
    "status", "stored"].map codePoints).Nodup := by decide +kernel

theorem stored_scans (stored : Bool) : Scans (storedText (some stored)) (.bool stored) := by
  cases stored
  · exact scans_false
  · exact scans_true

theorem fact_fields {r : Receipt τ} {factId : Text} {stored : Bool}
    (hfact : r.disposition.factId = some factId) (hstored : r.disposition.stored = some stored) :
    r.fields = [(codePoints "completed_at", ClockText.repr r.completedAt),
      (codePoints "delivery_id", quoteText (codes r.disposition.deliveryId)),
      (codePoints "fact_id", quoteText factId),
      (codePoints "format_version", Nat.toDigits 10 formatVersion),
      (codePoints "reason", quoteText (codePoints r.disposition.reason.text)),
      (codePoints "status", quoteText (codePoints r.disposition.status.text)),
      (codePoints "stored", storedText (some stored))] := by
  rw [Receipt.fields, hfact, hstored]
  rfl

theorem fact_written (hc : ClockLaws τ) {r : Receipt τ} {factId : Text} {stored : Bool}
    (hfact : r.disposition.factId = some factId) (hstored : r.disposition.stored = some stored) :
    Written r.fields (factValues r factId stored) := by
  rw [fact_fields hfact hstored]
  refine ⟨?_, factKeys_nodup, ?_⟩
  · exact .cons (fieldKey_scans (hc.stays _).scans)
      (.cons (fieldKey_scans (stays_str (reread_codes _)).scans)
      (.cons (fieldKey_scans (stays_quoted factId).scans) (.cons (fieldKey_scans version_scans)
      (.cons (fieldKey_scans (word_scans _)) (.cons (fieldKey_scans (word_scans _))
      (.cons (fieldKey_scans (stored_scans _)) .nil))))))
  · intro f hf
    simp only [List.mem_cons, List.not_mem_nil, or_false] at hf
    rcases hf with rfl | rfl | rfl | rfl | rfl | rfl | rfl
    · exact hc.printable _
    · exact quoteText_printable _
    · exact quoteText_printable _
    · exact digits_printable formatVersion
    · exact quoteText_printable _
    · exact quoteText_printable _
    · cases stored <;> exact literal_printable (by decide)

theorem key_lengths : (quoteText (codePoints "completed_at")).length = 14 ∧
    (quoteText (codePoints "delivery_id")).length = 13 ∧
    (quoteText (codePoints "fact_id")).length = 9 ∧
    (quoteText (codePoints "format_version")).length = 16 ∧
    (quoteText (codePoints "reason")).length = 8 ∧
    (quoteText (codePoints "status")).length = 8 ∧
    (quoteText (codePoints "stored")).length = 8 := by
  decide +kernel

theorem identity_length {table : DigitTable} {id : List Char} (hid : uuid table id = .ok id) :
    (quoteText (codes id)).length ≤ 218 := by
  obtain ⟨hlen, hchars⟩ := uuid_text hid
  have hsmall : ∀ c ∈ id, c.toNat < 128 := by
    intro c hc
    rcases hchars c hc with hlow | rfl
    · exact Nat.lt_succ_of_lt hlow.facts.1
    · decide
  have hquote := length_quoteText (codes_small hsmall)
  have hcodes : (codes id).length = 36 := by rw [codes, List.length_map, hlen]
  omega

theorem words_length (disposition : Disposition) :
    (quoteText (codePoints disposition.reason.text)).length ≤ 278 ∧
      (quoteText (codePoints disposition.status.text)).length ≤ 146 := by
  have hreason := length_quoteText_wide (codePoints disposition.reason.text)
  have hstatus := length_quoteText_wide (codePoints disposition.status.text)
  have hshort := reason_short disposition.reason
  have hshort' := status_short disposition.status
  omega

theorem version_length : (Nat.toDigits 10 formatVersion).length = 1 := rfl

/-- The fields that every receipt has, as they are read. -/
structure Common (r : Receipt τ) (ps : List (Text × JsonValue)) : Prop where
  version : natField ps "format_version" = some formatVersion
  name : charsField ps "delivery_id" = some r.disposition.deliveryId
  time : (ps.lookup (codePoints "completed_at")).bind (number (τ := τ)) = some r.completedAt
  status : (strField ps "status").bind Status.ofText = some r.disposition.status
  reason : (strField ps "reason").bind Reason.ofText = some r.disposition.reason

theorem common_fields (hc : ClockLaws τ) {r : Receipt τ} {ps : List (Text × JsonValue)}
    (hw : Written r.fields ps) (hsub : plainValues r ⊆ ps) : Common r ps := by
  have hkey : ∀ {key : String} {v : JsonValue}, (codePoints key, v) ∈ plainValues r →
      ps.lookup (codePoints key) = some v := fun hm => hw.lookup (hsub hm)
  have htext : ∀ {key : String} {t : Text}, (codePoints key, .str t) ∈ plainValues r →
      strField ps key = some t := fun hm => Json.strField_eq_some.mpr (hkey hm)
  constructor
  · rw [natField, hkey (v := .int formatVersion) (by simp [plainValues])]
    rfl
  · rw [charsField, htext (t := codes r.disposition.deliveryId) (by simp [plainValues])]
    exact textChars_codes _
  · rw [hkey (v := .float (ClockText.repr r.completedAt)) (by simp [plainValues])]
    exact hc.reads _
  · rw [htext (t := codePoints r.disposition.status.text) (by simp [plainValues])]
    exact status_ofText _
  · rw [htext (t := codePoints r.disposition.reason.text) (by simp [plainValues])]
    exact reason_ofText _

/-- An end without a fact. -/
structure PlainEnd (disposition : Disposition) : Prop where
  terminal : disposition.status.terminal = true
  factId : disposition.factId = none
  stored : disposition.stored = none
  apart : ¬(disposition.status = .acknowledged ∧
    (disposition.reason = .gatewayStored ∨ disposition.reason = .gatewayDuplicate))
  reason : plainReason disposition.status disposition.reason = true

/-- An end with the fact that the server answered with. -/
structure FactEnd (disposition : Disposition) (factId : Text) (stored : Bool) : Prop where
  status : disposition.status = .acknowledged
  reason : disposition.reason = if stored then .gatewayStored else .gatewayDuplicate
  called : isFactId factId = true
  factId : disposition.factId = some factId
  stored : disposition.stored = some stored

/-- A receipt without a fact is read back. -/
theorem plain_read [JsonBytes] (hc : ClockLaws τ) {table : DigitTable} {r : Receipt τ}
    (hid : uuid table r.disposition.deliveryId = .ok r.disposition.deliveryId)
    (h : PlainEnd r.disposition) (d : Nat) :
    receiptOf table (d + 1) (receiptName r.disposition.deliveryId) r.encoded = some r := by
  obtain ⟨hterminal, hfact, hstored, hplain, hreason⟩ := h
  have hw := plain_written hc hfact
  have hread := common_fields hc hw (List.Subset.refl _)
  have hlen : r.encoded.length ≤ maxHeaderBytes := by
    have hbound := length_flatText r.fields
    have hid := identity_length hid
    have hwords := words_length r.disposition
    have hrepr := hc.short r.completedAt
    obtain ⟨k₁, k₂, -, k₄, k₅, k₆, -⟩ := key_lengths
    rw [plain_fields hfact] at hbound
    simp only [List.map_cons, List.map_nil, List.sum_cons, List.sum_nil, k₁, k₂, k₄, k₅, k₆,
      version_length] at hbound
    rw [Receipt.encoded, hw.length, plain_fields hfact]
    exact hbound.trans (by unfold maxHeaderBytes; omega)
  have hkeys : (plainValues r).map Prod.fst = receiptKeys := rfl
  have hself : disposed r.disposition.deliveryId r.disposition.status r.disposition.reason =
      r.disposition := by rw [disposed, ← hfact, ← hstored]
  unfold receiptOf
  rw [Receipt.encoded] at hlen
  simp only [Receipt.encoded, hw.decoded d, hkeys, hread.version, hread.name, hread.time,
    hread.status, hread.reason, hlen, hid, hterminal, hreason, hplain, guard, Except.toOption,
    Option.map_some, true_or, if_true, if_false, Option.pure_def, Option.bind_eq_bind,
    Option.bind_some, hself]

/-- What a fact is called it may still be called when it is read back. -/
theorem isFactId_reread {t : Text} (h : isFactId t = true) : isFactId (reread t) = true := by
  have hjoins := reread_joins t
  have hwide : ∀ n, 65536 ≤ n → isSpaceCode n = false := by
    intro n hn
    simp only [isSpaceCode, Bool.or_eq_false_iff, Bool.and_eq_false_iff, beq_eq_false_iff_ne,
      decide_eq_false_iff_not]
    omega
  simp only [isFactId, Captured.strip, Bool.and_eq_true, beq_iff_eq, decide_eq_true_eq,
    List.all_eq_true, Lines.trim_eq_self_iff] at h ⊢
  obtain ⟨⟨⟨⟨hhead, hlast⟩, hne⟩, hlen⟩, hplain⟩ := h
  refine ⟨⟨⟨⟨?_, ?_⟩, hjoins.ne_nil hne⟩, hjoins.length_le.trans hlen⟩, ?_⟩
  · exact fun n hn => (hjoins.head hn).elim (hhead n) (hwide n)
  · exact fun n hn => (hjoins.last hn).elim (hlast n) (hwide n)
  · intro n hn
    rcases hjoins.mem hn with hin | hbeyond
    · exact hplain n hin
    · omega

/-- A receipt of a fact is read back, with the fact's name as it is decoded. -/
theorem fact_read [JsonBytes] (hc : ClockLaws τ) {table : DigitTable} {r : Receipt τ}
    {factId : Text} {stored : Bool}
    (hid : uuid table r.disposition.deliveryId = .ok r.disposition.deliveryId)
    (h : FactEnd r.disposition factId stored) (d : Nat) :
    receiptOf table (d + 1) (receiptName r.disposition.deliveryId) r.encoded =
      some { r with disposition := { r.disposition with factId := some (reread factId) } } := by
  obtain ⟨hstatus, hreason, hcalled, hfact, hstored⟩ := h
  have hw := fact_written hc hfact hstored
  have hcalled' := isFactId_reread hcalled
  have hsub : (plainValues r).Sublist (factValues r factId stored) :=
    .cons_cons _ (.cons_cons _ (.cons _ (.cons_cons _ (.cons_cons _ (.cons_cons _
      (.cons _ .slnil))))))
  have hread := common_fields hc hw hsub.subset
  have hshort : factId.length ≤ 1024 := by
    simp only [isFactId, Bool.and_eq_true, decide_eq_true_eq] at hcalled
    exact hcalled.1.2
  have hlen : r.encoded.length ≤ maxHeaderBytes := by
    have hbound := length_flatText r.fields
    have hid := identity_length hid
    have hwords := words_length r.disposition
    have hrepr := hc.short r.completedAt
    have hcall := length_quoteText_wide factId
    have hflag : (storedText (some stored)).length ≤ 5 := by cases stored <;> decide
    obtain ⟨k₁, k₂, k₃, k₄, k₅, k₆, k₇⟩ := key_lengths
    rw [fact_fields hfact hstored] at hbound
    simp only [List.map_cons, List.map_nil, List.sum_cons, List.sum_nil, k₁, k₂, k₃, k₄, k₅, k₆,
      k₇, version_length] at hbound
    rw [Receipt.encoded, hw.length, fact_fields hfact hstored]
    exact hbound.trans (by unfold maxHeaderBytes; omega)
  have hkeys : ((factValues r factId stored).map Prod.fst).toFinset =
      (receiptKeys ++ factKeys).toFinset := by
    have hmap : (factValues r factId stored).map Prod.fst = ["completed_at", "delivery_id",
        "fact_id", "format_version", "reason", "status", "stored"].map codePoints := rfl
    rw [hmap]
    decide +kernel
  have hcall : strField (factValues r factId stored) "fact_id" = some (reread factId) :=
    Json.strField_eq_some.mpr (hw.lookup (by simp [factValues]))
  have hflag : boolField (factValues r factId stored) "stored" = some stored := by
    rw [boolField, hw.lookup (v := .bool stored) (by simp [factValues])]
  have hterminal : r.disposition.status.terminal = true := by rw [hstatus]; rfl
  have hgateway : (r.disposition.status = .acknowledged ∧
      (r.disposition.reason = .gatewayStored ∨ r.disposition.reason = .gatewayDuplicate)) =
      True := by
    rw [hreason]
    cases stored <;> simp [hstatus]
  have hsame : stored = decide (r.disposition.reason = .gatewayStored) := by
    rw [hreason]
    cases stored <;> rfl
  have hself : (⟨r.disposition.deliveryId, r.disposition.status, r.disposition.reason,
      some (reread factId), some stored⟩ : Disposition) =
      { r.disposition with factId := some (reread factId) } := by rw [← hstored]
  unfold receiptOf
  rw [Receipt.encoded] at hlen
  simp only [Receipt.encoded, hw.decoded d, hkeys, hread.version, hread.name, hread.time,
    hread.status, hread.reason, hlen, hid, hterminal, hgateway, hcall, hcalled', hflag, ← hsame,
    guard, Except.toOption, Option.map_some, or_true, if_true, Option.pure_def,
    Option.bind_eq_bind, Option.bind_some, hself]

omit [Clock τ] in
theorem answer_ends {r : DeliveryRequest} {fields : List (Text × JsonValue)}
    (h : (answerOf r fields).status.terminal = true) :
    PlainEnd (answerOf r fields) ∨ ∃ factId stored, FactEnd (answerOf r fields) factId stored := by
  unfold answerOf at h ⊢
  by_cases hotlp : r.channel = "otlp"
  · rw [if_pos hotlp] at h ⊢
    by_cases hempty : fields = []
    · rw [if_pos hempty]
      exact Or.inl ⟨rfl, rfl, rfl, by simp [disposed], rfl⟩
    · rw [if_neg hempty] at h
      cases h
  rw [if_neg hotlp] at h ⊢
  cases hfact : answeredFact fields with
  | some fact =>
    obtain ⟨factId, stored⟩ := fact
    obtain ⟨-, hfact⟩ := guard_bind.mp hfact
    obtain ⟨factId', -, hfact⟩ := Option.bind_eq_some_iff.mp hfact
    obtain ⟨hcalled, hfact⟩ := guard_bind.mp hfact
    obtain ⟨stored', -, hfact⟩ := Option.bind_eq_some_iff.mp hfact
    cases hfact
    exact Or.inr ⟨factId, stored, rfl, rfl, hcalled, rfl, rfl⟩
  | none =>
    simp only [hfact] at h ⊢
    by_cases hskip : answeredSkip fields = true
    · rw [if_pos hskip]
      exact Or.inl ⟨rfl, rfl, rfl, by simp [disposed], rfl⟩
    · rw [if_neg hskip] at h
      cases h

omit [Clock τ] in
/-- An answer that ends an entry is one that a receipt may have. -/
theorem acknowledgment_ends [JsonBytes] {limit : Nat} {r : DeliveryRequest} {body : Bytes}
    (h : (acknowledgment limit r body).status.terminal = true) :
    PlainEnd (acknowledgment limit r body) ∨
      ∃ factId stored, FactEnd (acknowledgment limit r body) factId stored := by
  unfold acknowledgment at h ⊢
  cases hd : decoded limit body with
  | none =>
    rw [hd] at h
    cases h
  | some v =>
    rw [hd] at h
    cases v with
    | obj fields => exact answer_ends h
    | _ => cases h

omit [Clock τ] in
theorem attempted_ends [JsonBytes] {limit : Nat} {r : DeliveryRequest} {reply : Reply}
    (h : (attempted limit r reply).status.terminal = true) :
    PlainEnd (attempted limit r reply) ∨
      ∃ factId stored, FactEnd (attempted limit r reply) factId stored := by
  cases reply with
  | unconfigured reason => cases h
  | unsent reason => cases h
  | failed => cases h
  | answered code body =>
    have hcases : attempted limit r (.answered code body) = acknowledgment limit r body ∨
        (attempted limit r (.answered code body)).status.terminal = false := by
      simp only [attempted]
      split_ifs
      · exact Or.inr rfl
      · exact Or.inr rfl
      · exact Or.inr rfl
      · exact Or.inr rfl
      · exact Or.inr rfl
      · exact Or.inl rfl
      · exact Or.inr rfl
    rcases hcases with heq | hfalse
    · rw [heq] at h ⊢
      exact acknowledgment_ends h
    · rw [hfalse] at h
      cases h

/-- What ends an entry is read back from its receipt. -/
theorem closes_read [JsonBytes] (hc : ClockLaws τ) {table : DigitTable} {disposition : Disposition}
    {d : Nat} (hid : uuid table disposition.deliveryId = .ok disposition.deliveryId)
    (h : Closes (d + 1) disposition) (now : τ) :
    ∃ r : Receipt τ, receiptOf table (d + 1) (receiptName disposition.deliveryId)
      (Receipt.encoded ⟨disposition, now⟩) = some r := by
  have hends : PlainEnd disposition ∨ ∃ factId stored, FactEnd disposition factId stored := by
    rcases h with ⟨id, reason, rfl, hreason⟩ | ⟨r, reply, rfl, hterminal⟩
    · exact Or.inl ⟨rfl, rfl, rfl, by simp [disposed], hreason⟩
    · exact attempted_ends hterminal
  rcases hends with hplain | ⟨factId, stored, hfact⟩
  · exact ⟨_, plain_read (r := ⟨disposition, now⟩) hc hid hplain d⟩
  · exact ⟨_, fact_read (r := ⟨disposition, now⟩) hc hid hfact d⟩

variable [JsonBytes] {runtime : Runtime} {now : τ}

/-- Every name of an entry is an identity in its normal form, and every receipt is readable. -/
structure Sane (τ : Type) [Clock τ] [JsonBytes] (runtime : Runtime) (d : Directory) : Prop where
  names : ∀ id, d.entries.get? id ≠ none → checkId runtime id = .ok ()
  receipts : ∀ id, d.receipts.get? id ≠ none →
    ∃ r : Receipt τ, readReceipt runtime d id = .ok r

theorem Sane.removeEntry {d : Directory} (h : Sane τ runtime d) (id : List Char) :
    Sane τ runtime (Op.apply (.removeEntry id) d) :=
  ⟨fun k hk => h.names k (get?_without_ne_none.mp hk).2, h.receipts⟩

theorem Sane.removeReceipt {d : Directory} (h : Sane τ runtime d) (id : List Char) :
    Sane τ runtime (Op.apply (.removeReceipt id) d) := by
  refine ⟨h.names, fun k hk => ?_⟩
  obtain ⟨hne, hk⟩ := get?_without_ne_none.mp hk
  obtain ⟨r, hr⟩ := h.receipts k hk
  refine ⟨r, hr ▸ ?_⟩
  have hget : (without d.receipts id).get? k = d.receipts.get? k :=
    (get?_without d.receipts id k).trans (if_neg hne)
  simp only [readReceipt, Op.apply, hget]

theorem Sane.publishReceipt {d : Directory} (h : Sane τ runtime d) {disposition : Disposition}
    (hc : ClockLaws τ) (hdepth : 0 < runtime.depth)
    (hid : uuid runtime.digits disposition.deliveryId = .ok disposition.deliveryId)
    (hcloses : Closes runtime.depth disposition) (now : τ) :
    Sane τ runtime (Op.apply (.publishReceipt disposition.deliveryId
      (Receipt.encoded ⟨disposition, now⟩)) d) := by
  refine ⟨h.names, fun k hk => ?_⟩
  have hget := Dict.get?_set d.receipts disposition.deliveryId
    (Receipt.encoded ⟨disposition, now⟩) k
  by_cases hkey : k = disposition.deliveryId
  · obtain ⟨depth, hd⟩ := Nat.exists_eq_succ_of_ne_zero hdepth.ne'
    rw [hd] at hcloses
    rw [if_pos hkey] at hget
    obtain ⟨r, hread⟩ := closes_read hc hid hcloses now
    refine ⟨r, ?_⟩
    subst hkey
    simp only [readReceipt, Op.apply, hget, hd, Nat.succ_eq_add_one, hread]
  · rw [if_neg hkey] at hget
    have hold : d.receipts.get? k ≠ none := fun hnone => hk (hget.trans hnone)
    obtain ⟨r, hr⟩ := h.receipts k hold
    refine ⟨r, hr ▸ ?_⟩
    simp only [readReceipt, Op.apply, hget]

theorem Sane.closed {d : Directory} (h : Sane τ runtime d) {disposition : Disposition}
    (hc : ClockLaws τ) (hdepth : 0 < runtime.depth)
    (hid : uuid runtime.digits disposition.deliveryId = .ok disposition.deliveryId)
    (hcloses : Closes runtime.depth disposition) (now : τ) :
    Sane τ runtime (closed d disposition.deliveryId (Receipt.encoded ⟨disposition, now⟩)) := by
  have hpublished := (h.publishReceipt hc hdepth hid hcloses now).removeEntry disposition.deliveryId
  exact ⟨hpublished.names, hpublished.receipts⟩

/-- The loop over the entries, whose names are still those of files. -/
structure Standing (τ : Type) [Clock τ] [JsonBytes] (runtime : Runtime) (xs : List (List Char))
    (d : Directory) : Prop where
  sane : Sane τ runtime d
  nodup : xs.Nodup
  present : ∀ id ∈ xs, d.entries.get? id ≠ none

theorem Standing.removed {d d' : Directory} {x : List Char} {xs : List (List Char)}
    (h : Standing τ runtime (x :: xs) d) (hsane : Sane τ runtime d')
    (hentries : d'.entries = without d.entries x) : Standing τ runtime xs d' := by
  obtain ⟨hx, hxs⟩ := List.nodup_cons.mp h.nodup
  refine ⟨hsane, hxs, fun id hid => ?_⟩
  rw [hentries]
  exact get?_without_ne_none.mpr ⟨fun heq => hx (heq ▸ hid), h.present id (by simp [hid])⟩

theorem Standing.kept {d : Directory} {x : List Char} {xs : List (List Char)}
    (h : Standing τ runtime (x :: xs) d) : Standing τ runtime xs d :=
  ⟨h.sane, (List.nodup_cons.mp h.nodup).2, fun id hid => h.present id (by simp [hid])⟩

variable [UnicodeText] [IpAddresses] [DatetimeReader]

theorem maintainEntry_succeeds (hc : ClockLaws τ) (hdepth : 0 < runtime.depth)
    {known : List (List Char)} (x : List Char) (xs : List (List Char)) :
    Triple (fun _ _ => True) (Standing τ runtime (x :: xs)) (maintainEntry runtime known now x)
      (fun _ => Standing τ runtime xs) (fun _ _ => False) := by
  refine Triple.bind (Q := fun _ d => checkId runtime x = .ok () ∧ Standing τ runtime (x :: xs) d)
    ?_ (fun _ => ?_)
  · refine Triple.lift (fun _ hok d hd => ⟨hok, hd⟩) (fun e herr d hd => ?_)
    rw [hd.sane.names x (hd.present x (by simp))] at herr
    cases herr
  split
  · refine Triple.bind (Q := fun _ => Standing τ runtime xs) ?_ (fun _ => ?_)
    · exact Triple.perform (fun d hd => ⟨trivial, hd.2.removed (hd.2.sane.removeEntry x) rfl⟩)
    · refine Triple.perform (fun d hd => ⟨trivial, ?_⟩)
      exact ⟨⟨hd.sane.names, hd.sane.receipts⟩, hd.nodup, hd.present⟩
  · have hclose : ∀ reason : Reason, plainReason .declined reason = true → ∀ d,
        Triple (fun _ _ => True)
          (fun s => s = d ∧ checkId runtime x = .ok () ∧ Standing τ runtime (x :: xs) s)
          (receipt (disposed x .declined reason) now) (fun _ => Standing τ runtime xs)
          (fun _ _ => False) := by
      intro reason hreason d s hs
      refine ⟨⟨trivial, trivial, trivial, trivial, trivial⟩, hs.2.2.removed ?_ rfl⟩
      exact hs.2.2.sane.closed hc hdepth (checkId_ok hs.2.1) (declined_closes x hreason) now
    refine Triple.read (fun d hd => ?_)
    split
    · split
      · exact Triple.pure (fun s hs => hs.2.2.kept)
      · exact hclose .expired rfl d
    · exact hclose .invalidRecord rfl d
    · rename_i e hne herr
      have hpresent := hd.2.present x (by simp)
      rw [entryHeader, header, entryFiles_entryName] at herr
      cases hfile : d.entries.get? x with
      | none => exact absurd hfile hpresent
      | some file =>
        rw [hfile] at herr
        simp only at herr
        split at herr
        · cases herr
          exact absurd rfl hne
        · cases herr

/-- The loop over the receipts, which are still there. -/
structure Reading (τ : Type) [Clock τ] [JsonBytes] (runtime : Runtime) (xs : List (List Char))
    (d : Directory) : Prop where
  sane : Sane τ runtime d
  nodup : xs.Nodup
  present : ∀ id ∈ xs, d.receipts.get? id ≠ none

omit [UnicodeText] [IpAddresses] [DatetimeReader] in
theorem retainReceipt_succeeds (x : List Char) (xs : List (List Char)) :
    Triple (fun _ _ => True) (Reading τ runtime (x :: xs)) (retainReceipt runtime now x)
      (fun _ => Reading τ runtime xs) (fun _ _ => False) := by
  refine Triple.read (fun d hd => ?_)
  refine Triple.bind (Q := fun _ => Reading τ runtime (x :: xs)) ?_ (fun r => ?_)
  · refine Triple.lift (fun _ _ s hs => hs.2) (fun e herr s hs => ?_)
    obtain ⟨r, hr⟩ := hd.sane.receipts x (hd.present x (by simp))
    rw [hr] at herr
    cases herr
  split
  · refine Triple.bind (Q := fun _ => Reading τ runtime xs) ?_
      (fun _ => Triple.pure (fun _ hs => hs))
    refine Triple.perform (fun s hs => ⟨trivial, hs.sane.removeReceipt x, ?_, ?_⟩)
    · exact (List.nodup_cons.mp hs.nodup).2
    · intro id hid
      have hne : id ≠ x := fun heq => (List.nodup_cons.mp hs.nodup).1 (heq ▸ hid)
      exact get?_without_ne_none.mpr ⟨hne, hs.present id (by simp [hid])⟩
  · exact Triple.pure (fun s hs =>
      ⟨hs.sane, (List.nodup_cons.mp hs.nodup).2, fun id hid => hs.present id (by simp [hid])⟩)

/-- Maintenance fails for nothing but a name or a receipt that the queue does not write. -/
theorem maintenance_succeeds (hc : ClockLaws τ) (hdepth : 0 < runtime.depth) {d : Directory}
    (hd : Sane τ runtime d) : (maintenance runtime now d).2 = .ok () := by
  have hspec : Triple (fun _ _ => True) (Sane τ runtime) (maintenance runtime now)
      (fun _ _ => True) (fun _ _ => False) := by
    refine Triple.read (fun d hd => ?_)
    refine Triple.bind (Q := fun _ s => Sane τ runtime s ∧ s.entries = d.entries) ?_ (fun _ => ?_)
    · refine (Triple.each (I := fun xs s => (Sane τ runtime s ∧ s.entries = d.entries) ∧
          ∀ id ∈ xs, d.receipts.get? id ≠ none)
        (E := fun _ _ => False) (fun x xs => ?_) (names d.receipts ".receipt")).consequence
        (fun s hs => ⟨⟨hs.2, hs.1 ▸ rfl⟩, fun _ hid => mem_names.mp hid⟩) (fun _ _ hs => hs.1)
        (fun _ _ => id)
      refine Triple.lift (fun _ _ s hs => ⟨hs.1, fun id hid => hs.2 id (by simp [hid])⟩)
        (fun e herr s hs => ?_)
      obtain ⟨r, hr⟩ := hd.receipts x (hs.2 x (by simp))
      rw [hr] at herr
      cases herr
    refine Triple.bind (Q := fun _ s => Sane τ runtime s ∧ s.entries = d.entries) ?_ (fun _ => ?_)
    · refine Triple.each (I := fun (_ : List Nat) s => Sane τ runtime s ∧ s.entries = d.entries)
        (fun _ _ => Triple.perform (fun s hs => ?_)) _
      exact ⟨trivial, ⟨hs.1.names, hs.1.receipts⟩, hs.2⟩
    refine Triple.bind (Q := fun _ => Sane τ runtime) ?_ (fun _ => ?_)
    · refine (Triple.each (I := Standing τ runtime) (E := fun _ _ => False)
        (fun x xs => maintainEntry_succeeds hc hdepth x xs) (names d.entries ".entry")).consequence
        (fun s hs => ?_) (fun _ _ hs => hs.sane) (fun _ _ => id)
      exact ⟨hs.1, names_nodup _ _, fun id hid => hs.2 ▸ mem_names.mp hid⟩
    refine Triple.read (fun d' _ => ?_)
    refine Triple.bind (Q := fun _ => Sane τ runtime) ?_ (fun retained => ?_)
    · refine (Triple.collect (I := fun xs _ => Reading τ runtime xs) (E := fun _ _ => False)
        (fun x xs _ => retainReceipt_succeeds x xs) _ []).consequence ?_ (fun _ _ hs => hs.sane)
        (fun _ _ => id)
      rintro s ⟨rfl, hs⟩
      exact ⟨hs, names_nodup _ _, fun _ hid => mem_names.mp hid⟩
    · refine (Triple.each (I := fun _ => Sane τ runtime) (E := fun _ _ => False) (fun x _ => ?_)
        (surplus retained)).consequence (fun _ hs => hs) (fun _ _ _ => trivial) (fun _ _ => id)
      exact Triple.perform (fun s hs => ⟨trivial, hs.removeReceipt x⟩)
  have hends := (hspec d hd).2
  cases hr : (maintenance runtime now d).2 with
  | ok _ => rfl
  | error e =>
    rw [hr] at hends
    exact hends.elim

variable [Sha256]

/-- Whatever the processes do and wherever they crash, from entries that are named by their
identities and receipts that are readable, no file that they write stops the next maintenance. -/
theorem maintenance_never_stops (hc : ClockLaws τ) (hdepth : 0 < runtime.depth) {ι : Type}
    [DecidableEq ι] {ms : List (Move (World ι (Phase τ) Shared) ι)} {w : World ι (Phase τ) Shared}
    (hr : (queue ι runtime (fun d => Neat τ runtime d.entries ∧ Sane τ runtime d)
      (fun (_ : Place τ) _ => True)).system.Run ms w) :
    (∀ id, w.shared.directory.receipts.get? id ≠ none →
      ∃ r : Receipt τ, readReceipt runtime w.shared.directory id = .ok r) ∧
    ∀ now : τ, (maintenance runtime now w.shared.directory).2 = .ok () := by
  have hkeeps : ∀ d op, Guard τ runtime False NoneSpared d op →
      Neat τ runtime d.entries ∧ Sane τ runtime d →
      Neat τ runtime (op.apply d).entries ∧ Sane τ runtime (op.apply d) := by
    rintro d op hguard ⟨hneat, hsane⟩
    have hneat' := hguard.neat hneat
    refine ⟨hneat', ?_⟩
    have hnames : ∀ id, (op.apply d).entries.get? id ≠ none → checkId runtime id = .ok () := by
      intro id hid
      obtain ⟨file, hfile⟩ := Option.ne_none_iff_exists'.mp hid
      exact (hneat' id file hfile).normal
    cases op with
    | publishReceipt id data =>
      obtain ⟨-, hid, disposition, now, rfl, hcloses, rfl⟩ := hguard
      exact hsane.publishReceipt hc hdepth (hid hneat) hcloses now
    | removeReceipt id => exact hsane.removeReceipt id
    | _ => exact ⟨hnames, hsane.receipts⟩
  obtain ⟨-, hsane⟩ := (queue_sound hc False.elim
    (G := fun d => Neat τ runtime d.entries ∧ Sane τ runtime d) (fun _ h => h) hkeeps hr).1
  exact ⟨hsane.receipts, fun _ => maintenance_succeeds hc hdepth hsane⟩

end

section
local instance : UnicodeText := ServerUrls.asciiText
local instance : IpAddresses := ServerUrls.noAddresses
local instance : DatetimeReader := isoReader
local instance : Clock Seconds := secondsClock
local instance : Sha256 := bodyDigests
local instance : JsonBytes := noBytes

/-- The receipt of a delivered request is read whenever maintenance comes. -/
theorem stored_receipt_maintained :
    storedDirectory.receipts.get? preparedRequest.deliveryId = some storedReceipt ∧
    (∀ id, storedDirectory.receipts.get? id ≠ none →
      ∃ r : Receipt Seconds, readReceipt plainRuntime storedDirectory id = .ok r) ∧
    ∀ now : Seconds, (maintenance plainRuntime now storedDirectory).2 = .ok () := by
  have hempty : Neat Seconds plainRuntime emptyDirectory.entries ∧
      Sane Seconds plainRuntime emptyDirectory :=
    ⟨(fun _ _ h => by cases h), fun _ h => absurd rfl h, fun _ h => absurd rfl h⟩
  have hstart : (queue Unit plainRuntime
      (fun d => Neat Seconds plainRuntime d.entries ∧ Sane Seconds plainRuntime d)
      (fun (_ : Place Seconds) _ => True)).system.Run [] _ := idle_runs hempty
  have hgoes : (queue Unit plainRuntime
      (fun d => Neat Seconds plainRuntime d.entries ∧ Sane Seconds plainRuntime d)
      (fun (_ : Place Seconds) _ => True)).Goes () (.outside .idle, ⟨false, emptyDirectory⟩) _ :=
    ((enqueue_goes ()).then .leaveOff).trans (deliver_goes () trivial trivial)
  obtain ⟨ms, hrun⟩ := hgoes.run hstart rfl
  exact ⟨by decide +kernel, maintenance_never_stops secondsClock_laws (by decide) hrun⟩

end

end Sediment.Proofs.DeliveryRecords

import Sediment.Base.JsonCompact
import Sediment.Base.JsonIterencode
import Sediment.Base.PercentCoding
import Sediment.Cli.DeliveryEntry
import Sediment.Proofs.DeliveryDestination

namespace Sediment.Proofs.DeliveryEntry
open Base Decimals JsonScan
open Sediment.Core TextMethods Urls
open Cli.Delivery DeliveryIdentity DeliveryDestination

/-- A printable text is its own bytes. -/
theorem utf8_printable {s : List Char} (h : Printable s) :
    s.flatMap String.utf8EncodeChar = s.map (fun c => UInt8.ofNat c.toNat) := by
  induction s with
  | nil => rfl
  | cons c s ih =>
    have hc := h c (by simp)
    rw [List.flatMap_cons, List.map_cons, ih (fun d hd => h d (List.mem_cons_of_mem _ hd)),
      PercentCoding.utf8EncodeChar_ascii hc.2, List.singleton_append]

theorem byte_toNat {c : Char} (h : c.toNat < 128) : (UInt8.ofNat c.toNat).toNat = c.toNat := by
  rw [UInt8.toNat_ofNat']
  omega

variable {s : List Char}

theorem no_newline (h : Printable s) : ∀ b ∈ s.map (fun c => UInt8.ofNat c.toNat), b ≠ 10 := by
  intro b hb heq
  obtain ⟨c, hc, rfl⟩ := List.mem_map.mp hb
  have hcs := h c hc
  have hnat := congrArg UInt8.toNat heq
  rw [byte_toNat hcs.2] at hnat
  change c.toNat = 10 at hnat
  omega

theorem cut_line (h : Printable s) (body : Bytes) :
    (s.flatMap String.utf8EncodeChar ++ 10 :: body).takeWhile (· ≠ 10) =
        s.map (fun c => UInt8.ofNat c.toNat) ∧
      (s.flatMap String.utf8EncodeChar ++ 10 :: body).dropWhile (· ≠ 10) = 10 :: body := by
  have hpos : ∀ b ∈ s.map (fun c => UInt8.ofNat c.toNat), decide (b ≠ 10) = true :=
    fun b hb => decide_eq_true (no_newline h b hb)
  rw [utf8_printable h]
  constructor
  · rw [List.takeWhile_append_of_pos hpos, List.takeWhile_cons_of_neg (by simp), List.append_nil]
  · rw [List.dropWhile_append_of_pos hpos, List.dropWhile_cons_of_neg (by simp)]

/-- The first line of a file whose line is printable and short enough. -/
theorem readLine_printable (h : Printable s) {limit : Nat} (hlen : s.length < limit) (body : Bytes) :
    readLine limit (s.flatMap String.utf8EncodeChar ++ 10 :: body) =
      s.map (fun c => UInt8.ofNat c.toNat) ++ [10] := by
  obtain ⟨htake, hdrop⟩ := cut_line h body
  rw [readLine, htake, hdrop]
  simp only [List.take_succ_cons, List.take_zero]
  rw [List.take_of_length_le]
  simp only [List.length_append, List.length_map, List.length_singleton]
  omega

/-- Bytes of ASCII are decoded as the text that they spell. -/
theorem decoded_ascii [JsonBytes] (h : ∀ c ∈ s, 0 < c.toNat ∧ c.toNat < 128) (limit : Nat) :
    decoded limit (s.map (fun c => UInt8.ofNat c.toNat)) = strictLoads limit s := by
  have hall : (s.map (fun c : Char => UInt8.ofNat c.toNat)).all (fun b => 0 < b && b < 128) =
      true := by
    rw [List.all_eq_true]
    intro b hb
    obtain ⟨c, hc, rfl⟩ := List.mem_map.mp hb
    have hcs := h c hc
    have hnat := byte_toNat hcs.2
    simp only [Bool.and_eq_true, decide_eq_true_eq, UInt8.lt_iff_toNat_lt]
    rw [hnat]
    exact hcs
  rw [decoded, if_pos hall, List.map_map]
  congr 1
  conv_rhs => rw [← List.map_id s]
  apply List.map_congr_left
  intro c hc
  simp only [Function.comp_apply, byte_toNat (h c hc).2, Char.ofNat_toNat, id]

theorem printable_ascii (h : Printable s) : ∀ c ∈ s, 0 < c.toNat ∧ c.toNat < 128 := by
  intro c hc
  have hcs := h c hc
  omega

theorem decoded_line [JsonBytes] (h : Printable s) (limit : Nat) :
    decoded limit (s.map (fun c => UInt8.ofNat c.toNat) ++ [10]) =
      strictLoads limit (s ++ ['\n']) := by
  rw [← decoded_ascii, List.map_append]
  · rfl
  · intro c hc
    rcases List.mem_append.mp hc with hc | hc
    · exact printable_ascii h c hc
    · rw [List.mem_singleton.mp hc]
      decide

/-- What the times of the clock are written as. -/
structure ClockLaws (τ : Type) [ClockText τ] : Prop where
  stays : ∀ t : τ, Stays (ClockText.repr t) (.float (ClockText.repr t))
  reads : ∀ t : τ, ClockText.ofFloat (ClockText.repr t) = some t
  printable : ∀ t : τ, Printable (ClockText.repr t)
  short : ∀ t : τ, (ClockText.repr t).length ≤ 32

/-- A digest is 64 digits. -/
def DigestLaw [Sha256] : Prop := ∀ body, isDigest (codes (Sha256.hexdigest body)) = true

theorem reread_codes (s : List Char) : reread (codes s) = codes s := plain_toNat s

theorem textChars_codes (s : List Char) : textChars (codes s) = some s := by
  have hall : (codes s).all (fun n => decide n.isValidChar) = true := by
    rw [List.all_eq_true]
    intro n hn
    obtain ⟨c, -, rfl⟩ := List.mem_map.mp hn
    exact decide_eq_true c.valid
  rw [textChars, if_pos hall]
  exact congrArg some (map_ofNat_toNat s)

theorem commaJoined_printable {items : List (List Char)} (h : ∀ item ∈ items, Printable item) :
    Printable (commaJoined items) := by
  induction items with
  | nil => exact fun c hc => absurd hc (by simp [commaJoined])
  | cons item rest ih =>
    have hrest := ih (fun x hx => h x (by simp [hx]))
    cases rest with
    | nil => exact h item (by simp)
    | cons next rest =>
      exact Printable.append (h item (by simp)) (Printable.cons (by decide) hrest)

theorem fieldText_printable {f : Text × List Char} (h : Printable f.2) : Printable (fieldText f) :=
  Printable.append (quoteText_printable f.1) (Printable.cons (by decide) h)

theorem flatText_printable {fields : List (Text × List Char)} (h : ∀ f ∈ fields, Printable f.2) :
    Printable (flatText fields) := by
  apply Printable.framed (by decide) (by decide)
  apply commaJoined_printable
  intro item hitem
  obtain ⟨f, hf, rfl⟩ := List.mem_map.mp hitem
  exact fieldText_printable (h f hf)

theorem digits_printable (n : Nat) : Printable (Nat.toDigits 10 n) := by
  intro c hc
  have := isDigit_bounds (Nat.isDigit_of_mem_toDigits (by decide) (by decide) hc)
  omega

section
variable {τ : Type} [ClockText τ]

theorem fields_printable (hc : ClockLaws τ) (h : Header τ) : ∀ f ∈ h.fields, Printable f.2 := by
  intro f hf
  simp only [Header.fields, List.mem_cons, List.not_mem_nil, or_false] at hf
  rcases hf with rfl | rfl | rfl | rfl | rfl | rfl | rfl | rfl
  · exact digits_printable _
  · exact quoteText_printable _
  · exact quoteText_printable _
  · exact quoteText_printable _
  · exact quoteText_printable _
  · exact hc.printable _
  · exact digits_printable formatVersion
  · exact quoteText_printable _

/-- The values that a written header is read as. -/
def values (h : Header τ) : List (Text × JsonValue) :=
  [(codePoints "bytes", .int h.bytes), (codePoints "captured_at", .str h.capturedAt),
   (codePoints "channel", .str (codePoints h.channel)),
   (codePoints "delivery_id", .str (codes h.deliveryId)),
   (codePoints "destination", .str (codes h.destination)),
   (codePoints "enqueued_at", .float (ClockText.repr h.enqueuedAt)),
   (codePoints "format_version", .int formatVersion), (codePoints "sha256", .str h.sha256)]

theorem fields_values (hc : ClockLaws τ) {h : Header τ} (hbytes : h.bytes ≤ maxEntryBytes)
    (hcaptured : reread h.capturedAt = h.capturedAt) (hsha : reread h.sha256 = h.sha256) :
    List.Forall₂ FieldStays h.fields (values h) := by
  have hkey : ∀ s : String, reread (codePoints s) = codePoints s := plain_codePoints
  have hsmall : h.bytes < 10 ^ intMaxStrDigits := by
    have : maxEntryBytes < 10 ^ intMaxStrDigits :=
      lt_of_lt_of_le (by decide : maxEntryBytes < 10 ^ 7)
        (Nat.pow_le_pow_right (by decide) (by decide))
    omega
  refine .cons ⟨rfl, hkey _, stays_nat hsmall⟩ (.cons ⟨rfl, hkey _, stays_str hcaptured⟩
    (.cons ⟨rfl, hkey _, stays_str (hkey _)⟩ (.cons ⟨rfl, hkey _, stays_str (reread_codes _)⟩
    (.cons ⟨rfl, hkey _, stays_str (reread_codes _)⟩ (.cons ⟨rfl, hkey _, hc.stays _⟩
    (.cons ⟨rfl, hkey _, stays_nat (n := formatVersion) ?_⟩
    (.cons ⟨rfl, hkey _, stays_str hsha⟩ .nil)))))))
  exact Nat.one_lt_pow (by decide) (by decide)

theorem values_keys (h : Header τ) : (values h).map Prod.fst = headerKeys := rfl

theorem headerKeys_nodup : headerKeys.Nodup := by decide +kernel

theorem length_escapeUnit (n : Nat) : (escapeUnit n).length ≤ 6 := by
  unfold escapeUnit
  split_ifs <;> simp [unicodeEscape]

theorem length_quoteText {t : Text} (h : ∀ n ∈ t, n < 65536) :
    (quoteText t).length ≤ 2 + 6 * t.length := by
  have hunits : t.flatMap utf16 = t := by
    induction t with
    | nil => rfl
    | cons n t ih =>
      rw [List.flatMap_cons, ih (fun m hm => h m (List.mem_cons_of_mem _ hm)), utf16,
        if_pos (h n (by simp)), List.singleton_append]
  have hescaped : ∀ us : List Nat, (us.flatMap escapeUnit).length ≤ 6 * us.length := by
    intro us
    induction us with
    | nil => simp
    | cons u us ih =>
      have := length_escapeUnit u
      rw [List.flatMap_cons, List.length_append, List.length_cons]
      omega
  have := hescaped t
  rw [quoteText, hunits, List.length_append, List.length_cons, List.length_singleton]
  omega

theorem length_commaJoined_le (items : List (List Char)) :
    (commaJoined items).length ≤ (items.map (fun item => item.length + 1)).sum := by
  induction items with
  | nil => simp [commaJoined]
  | cons item rest ih =>
    cases rest with
    | nil => simp [commaJoined]
    | cons next rest =>
      rw [List.map_cons, List.sum_cons, commaJoined, List.length_append, List.length_cons]
      · omega
      · simp

theorem codes_small {s : List Char} (h : ∀ c ∈ s, c.toNat < 128) : ∀ n ∈ codes s, n < 65536 := by
  intro n hn
  obtain ⟨c, hc, rfl⟩ := List.mem_map.mp hn
  have := h c hc
  omega

/-- The parts of a header that decide its length. -/
structure Short (h : Header τ) : Prop where
  channel : h.channel = "gateway" ∨ h.channel = "otlp"
  destination : h.destination.length ≤ maxDestination ∧ ∀ c ∈ h.destination, c.toNat < 128
  capturedAt : h.capturedAt.length ≤ 32 ∧ ∀ n ∈ h.capturedAt, n < 65536
  deliveryId : h.deliveryId.length = 36 ∧ ∀ c ∈ h.deliveryId, c.toNat < 128
  bytes : h.bytes ≤ maxEntryBytes
  sha256 : h.sha256.length = 64 ∧ ∀ n ∈ h.sha256, n < 65536

theorem headerKeys_small :
    headerKeys.all (fun key => key.length ≤ 14 && key.all (· < 65536)) = true := by
  decide +kernel

theorem length_field {h : Header τ} {f : Text × List Char} (hf : f ∈ h.fields) :
    (fieldText f).length + 1 ≤ 88 + f.2.length := by
  have hkey : f.1 ∈ headerKeys := List.mem_map_of_mem (f := Prod.fst) hf
  have hsmall := List.all_eq_true.mp headerKeys_small _ hkey
  simp only [Bool.and_eq_true, decide_eq_true_eq, List.all_eq_true] at hsmall
  have := length_quoteText hsmall.2
  rw [fieldText, List.length_append, List.length_cons]
  omega

/-- A header whose parts are in their normal form fits in the line that is read. -/
theorem length_header (hc : ClockLaws τ) {h : Header τ} (hs : Short h) :
    (flatText h.fields).length < maxHeaderBytes := by
  have hdigits : (Nat.toDigits 10 h.bytes).length ≤ 8 :=
    (Nat.length_toDigits_le_iff (by decide) (by decide)).mpr
      (lt_of_le_of_lt hs.bytes (by decide))
  have hcaptured := length_quoteText hs.capturedAt.2
  have hchannel : (quoteText (codePoints h.channel)).length ≤ 44 := by
    rcases hs.channel with hch | hch <;> rw [hch] <;> decide +kernel
  have hid := length_quoteText (codes_small hs.deliveryId.2)
  have hdest := length_quoteText (codes_small hs.destination.2)
  have hsha := length_quoteText hs.sha256.2
  have hrepr := hc.short h.enqueuedAt
  have hjoin := length_commaJoined_le (h.fields.map fieldText)
  have hsum : ((h.fields.map fieldText).map (fun item => item.length + 1)).sum ≤
      (h.fields.map (fun f => 88 + f.2.length)).sum := by
    rw [List.map_map]
    exact List.sum_le_sum (fun f hf => length_field hf)
  have hparts : (h.fields.map (fun f => 88 + f.2.length)).sum =
      705 + (Nat.toDigits 10 h.bytes).length + (quoteText h.capturedAt).length +
        (quoteText (codePoints h.channel)).length + (quoteText (codes h.deliveryId)).length +
        (quoteText (codes h.destination)).length + (ClockText.repr h.enqueuedAt).length +
        (quoteText h.sha256).length := by
    have hone : (Nat.toDigits 10 formatVersion).length = 1 := rfl
    simp only [Header.fields, List.map_cons, List.map_nil, List.sum_cons, List.sum_nil, hone]
    omega
  have hlengths : (codes h.deliveryId).length = 36 ∧
      (codes h.destination).length ≤ maxDestination := by
    rw [codes, codes, List.length_map, List.length_map]
    exact ⟨hs.deliveryId.1, hs.destination.1⟩
  have hmax : maxHeaderBytes = 16384 ∧ maxDestination = 2048 := ⟨rfl, rfl⟩
  have hcap := hs.capturedAt.1
  have hshalen := hs.sha256.1
  rw [flatText, List.length_append, List.length_cons, List.length_singleton]
  omega

omit [ClockText τ] in
theorem lookup_of_mem {ps : List (Text × JsonValue)} (hn : (ps.map Prod.fst).Nodup) {key : Text}
    {v : JsonValue} (hm : (key, v) ∈ ps) : ps.lookup key = some v := by
  obtain ⟨front, back, hcut⟩ := List.append_of_mem hm
  rw [hcut, List.lookup_eq_some_iff]
  refine ⟨front, back, rfl, ?_⟩
  intro p hp
  rw [hcut, List.map_append, List.nodup_append] at hn
  have hne := hn.2.2 p.1 (List.mem_map_of_mem hp) key (by simp)
  simpa using Ne.symm hne

theorem lookup_values (h : Header τ) {key : Text} {v : JsonValue} (hm : (key, v) ∈ values h) :
    (values h).lookup key = some v :=
  lookup_of_mem (values_keys h ▸ headerKeys_nodup) hm

theorem codePoints_chars (s : String) : textChars (codePoints s) = some s.toList :=
  textChars_codes s.toList

section
variable [UnicodeText] [IpAddresses] [DatetimeReader] [JsonBytes] {table : DigitTable}

/-- What makes a header one that is read back. -/
structure Readable (table : DigitTable) (h : Header τ) : Prop extends Short h where
  identity : uuid table h.deliveryId = .ok h.deliveryId
  settled : Cli.Delivery.destination h.channel h.destination = .ok h.destination
  captured : ∃ t, instant h.capturedAt = .ok t
  plainCaptured : reread h.capturedAt = h.capturedAt
  plainSha256 : reread h.sha256 = h.sha256
  digest : isDigest h.sha256 = true

/-- The first line of a published file is the header it was published with. -/
theorem headerOf_written (hc : ClockLaws τ) {h : Header τ} (hr : Readable table h)
    (limit : Nat) {size : Nat}
    (hsize : size = (flatText h.fields).length + 1 + h.bytes) :
    headerOf table (limit + 1) (entryName h.deliveryId) size
      ((flatText h.fields).map (fun c => UInt8.ofNat c.toNat) ++ [10]) = some h := by
  have hprint := flatText_printable (fields_printable hc h)
  have hload : strictLoads (limit + 1) (flatText h.fields ++ ['\n']) = some (.obj (values h)) :=
    strictLoads_flat (fields_values hc hr.bytes hr.plainCaptured hr.plainSha256)
      (values_keys h ▸ headerKeys_nodup) rfl
  have hlen := length_header hc hr.toShort
  have hkey : ∀ {key : String} {v : JsonValue}, (codePoints key, v) ∈ values h →
      (values h).lookup (codePoints key) = some v := fun hm => lookup_values h hm
  have htext : ∀ {key : String} {t : Text}, (codePoints key, .str t) ∈ values h →
      strField (values h) key = some t := fun hm => Json.strField_eq_some.mpr (hkey hm)
  have hversion : natField (values h) "format_version" = some formatVersion := by
    rw [natField, hkey (v := .int formatVersion) (by simp [values])]
    rfl
  have hid : charsField (values h) "delivery_id" = some h.deliveryId := by
    rw [charsField, htext (t := codes h.deliveryId) (by simp [values])]
    exact textChars_codes _
  have hchannel : charsField (values h) "channel" = some h.channel.toList := by
    rw [charsField, htext (t := codePoints h.channel) (by simp [values])]
    exact codePoints_chars _
  have hdest : charsField (values h) "destination" = some h.destination := by
    rw [charsField, htext (t := codes h.destination) (by simp [values])]
    exact textChars_codes _
  have hcaptured : strField (values h) "captured_at" = some h.capturedAt :=
    htext (by simp [values])
  have htime : ((values h).lookup (codePoints "enqueued_at")).bind (number (τ := τ)) =
      some h.enqueuedAt := by
    rw [hkey (v := .float (ClockText.repr h.enqueuedAt)) (by simp [values])]
    exact hc.reads _
  have hbytes : natField (values h) "bytes" = some h.bytes := by
    rw [natField, hkey (v := .int h.bytes) (by simp [values])]
    simp
  have hsha : strField (values h) "sha256" = some h.sha256 := htext (by simp [values])
  obtain ⟨t, hinst⟩ := hr.captured
  unfold headerOf
  simp only [decoded_line hprint, Option.bind_eq_bind, Option.bind_some, hload, hversion,
    hid, hchannel, hdest, hcaptured, htime, hbytes, hsha]
  have hline : (((flatText h.fields).map (fun c : Char => UInt8.ofNat c.toNat)) ++ [10]).length =
      (flatText h.fields).length + 1 := by
    rw [List.length_append, List.length_map, List.length_singleton]
  have hname : String.ofList h.channel.toList = h.channel := String.ofList_toList
  rw [hline, hname, values_keys, hr.identity, hr.settled, hinst]
  simp only [guard, List.getLast?_concat, Nat.succ_le_of_lt hlen, hsize, hr.bytes, hr.digest,
    Except.toOption, Option.map_some, ne_eq, reduceCtorEq, not_false_eq_true, and_self, if_true,
    Option.pure_def, Option.bind_some]

omit [UnicodeText] [IpAddresses] [DatetimeReader] [JsonBytes] in
theorem length_entryFile (hc : ClockLaws τ) {h : Header τ} {body : Bytes}
    (hbody : body.length = h.bytes) :
    (entryFile h body).length = (flatText h.fields).length + 1 + h.bytes := by
  have hprint := flatText_printable (fields_printable hc h)
  rw [entryFile, Header.encoded, utf8_printable hprint, List.length_append, List.length_map,
    List.length_cons, hbody]
  omega

/-- The header of an entry is read back whatever body of its size stands behind it. -/
theorem header_written (hc : ClockLaws τ) {h : Header τ} (hr : Readable table h) {body : Bytes}
    (hbody : body.length = h.bytes) (limit : Nat) {files : List Char → Option Bytes}
    (hfile : files (entryName h.deliveryId) = some (entryFile h body)) :
    header table (limit + 1) files (entryName h.deliveryId) = .ok h := by
  have hprint := flatText_printable (fields_printable hc h)
  have hlen := length_header hc hr.toShort
  have hline : readLine (maxHeaderBytes + 1) (entryFile h body) =
      (flatText h.fields).map (fun c => UInt8.ofNat c.toNat) ++ [10] :=
    readLine_printable hprint (by omega) body
  rw [header, hfile]
  simp only [hline, headerOf_written hc hr limit (length_entryFile hc hbody)]

omit [JsonBytes] in
/-- An entry as it was published: its request is read back. -/
theorem request_written [Sha256] (hc : ClockLaws τ) {h : Header τ} (hr : Readable table h)
    {body : Bytes} (hbody : body.length = h.bytes)
    (hsha : codes (Sha256.hexdigest body) = h.sha256) {files : List Char → Option Bytes}
    (hfile : files (entryName h.deliveryId) = some (entryFile h body)) :
    request table files h =
      (prepareRequest table h.channel h.destination body h.capturedAt h.deliveryId).mapError
        Failure.delivery := by
  have hprint := flatText_printable (fields_printable hc h)
  have hlen := length_header hc hr.toShort
  have hsize := length_entryFile hc hbody
  have hcut : ((entryFile h body).dropWhile (· ≠ 10)).tail = body := by
    rw [entryFile, Header.encoded, (cut_line hprint body).2, List.tail_cons]
  have hbound : ¬maxEntryBytes + maxHeaderBytes < (entryFile h body).length := by
    have := hr.bytes
    omega
  rw [request, hfile]
  simp only [if_neg hbound, hcut, hbody, hsha, ne_eq, not_true_eq_false, or_self, if_false]

end
end

section
variable [UnicodeText] [IpAddresses] [DatetimeReader] {table : DigitTable}

theorem prepare_ok {channel : String} {dest : List Char} {body : Bytes} {captured : Text}
    {id : List Char} {r : DeliveryRequest}
    (h : prepareRequest table channel dest body captured id = .ok r) :
    r.channel = channel ∧ r.body = body ∧ body.length ≤ maxEntryBytes ∧
      Cli.Delivery.destination channel dest = .ok r.destination ∧
      instant captured = .ok r.capturedAt ∧ uuid table id = .ok r.deliveryId := by
  unfold prepareRequest at h
  split at h
  · cases h
  · rename_i hlen
    cases hd : Cli.Delivery.destination channel dest with
    | error e => rw [hd] at h; cases h
    | ok dest' =>
      cases hi : instant captured with
      | error e => rw [hd, hi] at h; cases h
      | ok captured' =>
        cases hu : uuid table id with
        | error e => rw [hd, hi, hu] at h; cases h
        | ok id' =>
          rw [hd, hi, hu] at h
          cases h
          exact ⟨rfl, rfl, not_lt.mp hlen, rfl, rfl, rfl⟩

end

theorem clock_ascii (full : Bool) (n : Nat) : ∀ c ∈ clock full n, c.toNat < 128 := by
  have hpad : ∀ k m, ∀ c ∈ Calendar.pad k m, c.toNat < 128 := fun k m c hc => by
    have := isDigit_bounds (Calendar.pad_isDigit k m c hc)
    omega
  intro c hc
  unfold clock at hc
  simp only [List.mem_append, List.mem_cons] at hc
  rcases hc with hc | rfl | hc | hc
  · exact hpad _ _ c hc
  · decide
  · exact hpad _ _ c hc
  · split at hc
    · cases hc
    · simp only [List.mem_cons, List.mem_append] at hc
      rcases hc with rfl | hc | hc
      · decide
      · exact hpad _ _ c hc
      · split at hc
        · cases hc
        · rcases List.mem_cons.mp hc with rfl | hc
          · decide
          · exact hpad _ _ c hc

theorem isoformat_ascii (d : Datetime) : ∀ c ∈ d.isoformat, c.toNat < 128 := by
  have hpad : ∀ k m, ∀ c ∈ Calendar.pad k m, c.toNat < 128 := fun k m c hc => by
    have := isDigit_bounds (Calendar.pad_isDigit k m c hc)
    omega
  intro c hc
  unfold Datetime.isoformat at hc
  simp only [List.mem_append, List.mem_cons] at hc
  rcases hc with hc | rfl | hc | rfl | hc | rfl | hc | rfl | hc
  · exact hpad _ _ c hc
  · decide
  · exact hpad _ _ c hc
  · decide
  · exact hpad _ _ c hc
  · decide
  · exact clock_ascii _ _ c hc
  · split <;> decide
  · exact clock_ascii _ _ c hc

theorem length_isoformat {d : Datetime} (h : d.offset = 0) : d.isoformat.length ≤ 32 := by
  have hclock : ∀ full n, (clock full n).length ≤ 15 := by
    intro full n
    unfold clock
    split_ifs <;> simp [Calendar.length_pad]
  have hzero : (clock false 0).length = 5 := by simp [clock, Calendar.length_pad]
  have hlocal := hclock true ((d.wall - wallMin).toNat % 86400000000)
  unfold Datetime.isoformat
  simp only [h, List.length_append, List.length_cons, Calendar.length_pad, Int.natAbs_zero, hzero]
  omega

/-- The text of an instant in its normal form is short and plain. -/
theorem instant_text [DatetimeReader] {value text : Text} (h : instant value = .ok text) :
    text.length ≤ 32 ∧ (∀ n ∈ text, n < 65536) ∧ reread text = text := by
  unfold instant at h
  split at h
  · split at h
    · cases h
    · rename_i d hd
      cases h
      refine ⟨?_, codes_small (isoformat_ascii d), plain_toNat _⟩
      rw [Datetime.isoText, List.length_map]
      exact length_isoformat (Datetime.utc_offset hd)
  · cases h

/-- The bytes behind the first line of a file. -/
def bodyOf (file : Bytes) : Bytes := (file.dropWhile (· ≠ 10)).tail

theorem guard_bind {α : Type} {p : Prop} [Decidable p] {f : Unit → Option α} {a : α} :
    (guard p >>= f) = some a ↔ p ∧ f () = some a := by
  by_cases hp : p <;> simp [guard, hp]

theorem entryName_injective : Function.Injective entryName :=
  fun _ _ h => List.append_cancel_right h

/-- A line that ends with a newline is the whole first line of its file. -/
theorem readLine_whole {limit : Nat} {file : Bytes}
    (h : (readLine limit file).getLast? = some 10) :
    readLine limit file = file.takeWhile (· ≠ 10) ++ [10] ∧
      file.dropWhile (· ≠ 10) = 10 :: bodyOf file := by
  have hclear : ∀ b ∈ file.takeWhile (· ≠ 10), b ≠ 10 := by
    intro b hb
    simpa using List.mem_takeWhile_imp hb
  rw [readLine] at h ⊢
  rw [bodyOf]
  cases hrest : file.dropWhile (· ≠ 10) with
  | nil =>
    rw [hrest, List.take_nil, List.append_nil] at h
    exact absurd rfl (hclear 10 (List.mem_of_mem_take (List.mem_of_getLast? h)))
  | cons b rest =>
    have hb : b = 10 := by
      have hhead := List.head?_dropWhile_not (fun b : UInt8 => decide (b ≠ 10)) file
      rw [hrest] at hhead
      simpa using hhead
    rw [hrest, List.take_succ_cons, List.take_zero] at h
    rw [List.take_succ_cons, List.take_zero, List.tail_cons, hb]
    by_cases hlimit : (file.takeWhile (· ≠ 10)).length < limit
    · rw [List.take_of_length_le (by rw [List.length_append, List.length_singleton]; omega)]
      exact ⟨rfl, rfl⟩
    · rw [List.take_append_of_le_length (by omega)] at h
      exact absurd rfl (hclear 10 (List.mem_of_mem_take (List.mem_of_getLast? h)))

theorem readLine_last {limit : Nat} {file : Bytes}
    (h : (readLine limit file).getLast? = some 10) :
    file.length = (readLine limit file).length + (bodyOf file).length := by
  obtain ⟨hline, hrest⟩ := readLine_whole h
  have hfile := congrArg List.length (List.takeWhile_append_dropWhile (p := (· ≠ 10)) (l := file))
  rw [List.length_append, hrest, List.length_cons] at hfile
  rw [hline, List.length_append, List.length_singleton]
  omega

section
variable [UnicodeText] [IpAddresses] [DatetimeReader] {table : DigitTable} {τ : Type} [ClockText τ]

theorem headerOf_some [JsonBytes] {limit size : Nat} {name : List Char} {line : Bytes}
    {h : Header τ} (hh : headerOf table limit name size line = some h) :
    line.getLast? = some 10 ∧ size = line.length + h.bytes ∧
      (uuid table h.deliveryId).toOption.map entryName = some name ∧
      ∃ fields, decoded limit line = some (.obj fields) ∧
        charsField fields "delivery_id" = some h.deliveryId := by
  unfold headerOf at hh
  obtain ⟨v, hload, hh⟩ := Option.bind_eq_some_iff.mp hh
  split at hh
  · simp only [guard_bind] at hh
    obtain ⟨⟨hlast, -⟩, -, -, hh⟩ := hh
    obtain ⟨deliveryId, hid, hh⟩ := Option.bind_eq_some_iff.mp hh
    obtain ⟨hname, hh⟩ := guard_bind.mp hh
    obtain ⟨channel, -, hh⟩ := Option.bind_eq_some_iff.mp hh
    obtain ⟨dest, -, hh⟩ := Option.bind_eq_some_iff.mp hh
    obtain ⟨-, hh⟩ := guard_bind.mp hh
    obtain ⟨capturedAt, -, hh⟩ := Option.bind_eq_some_iff.mp hh
    obtain ⟨-, hh⟩ := guard_bind.mp hh
    obtain ⟨enqueuedAt, -, hh⟩ := Option.bind_eq_some_iff.mp hh
    obtain ⟨bytes, -, hh⟩ := Option.bind_eq_some_iff.mp hh
    obtain ⟨-, hh⟩ := guard_bind.mp hh
    obtain ⟨hsize, hh⟩ := guard_bind.mp hh
    obtain ⟨sha256, -, hh⟩ := Option.bind_eq_some_iff.mp hh
    obtain ⟨-, hh⟩ := guard_bind.mp hh
    cases hh
    exact ⟨hlast, hsize, hname, _, hload, hid⟩
  · cases hh

/-- Wherever the header of a published file is read, it is read with its own identity. -/
theorem headerOf_published [JsonBytes] (hc : ClockLaws τ) {h h' : Header τ}
    (hbytes : h.bytes ≤ maxEntryBytes) (hcaptured : reread h.capturedAt = h.capturedAt)
    (hsha : reread h.sha256 = h.sha256) {limit size : Nat} {name : List Char} {body : Bytes}
    (hh : headerOf table limit name size (readLine (maxHeaderBytes + 1) (entryFile h body)) =
      some h') : h'.deliveryId = h.deliveryId := by
  obtain ⟨hlast, -, -, fields, hload, hid⟩ := headerOf_some hh
  have hprint := flatText_printable (fields_printable hc h)
  rw [(readLine_whole hlast).1, entryFile, Header.encoded, (cut_line hprint body).1,
    decoded_line hprint] at hload
  cases limit with
  | zero =>
    rw [flatText, List.cons_append, List.cons_append, strictLoads, if_neg (by simp),
      skipBlanks_cons (by decide)] at hload
    cases hload
  | succ d =>
    rw [strictLoads_flat (fields_values hc hbytes hcaptured hsha)
      (values_keys h ▸ headerKeys_nodup) rfl] at hload
    cases hload
    have hfield : strField (values h) "delivery_id" = some (codes h.deliveryId) :=
      Json.strField_eq_some.mpr (lookup_values h (by simp [values]))
    rw [charsField, hfield] at hid
    exact Option.some.inj (hid.symm.trans (textChars_codes _))

omit [ClockText τ] in
theorem request_ok [Sha256] {files : List Char → Option Bytes} {h : Header τ} {r : DeliveryRequest}
    (hr : request table files h = .ok r) :
    ∃ file, files (entryName h.deliveryId) = some file ∧ r.body = bodyOf file ∧
      uuid table h.deliveryId = .ok r.deliveryId := by
  unfold request at hr
  cases hfile : files (entryName h.deliveryId) with
  | none =>
    rw [hfile] at hr
    cases hr
  | some file =>
    rw [hfile] at hr
    simp only at hr
    split at hr
    · cases hr
    · split at hr
      · cases hr
      · rename_i hbody
        cases hprep : prepareRequest table h.channel h.destination
            (file.dropWhile (· ≠ 10)).tail h.capturedAt h.deliveryId with
        | error e => rw [hprep] at hr; cases hr
        | ok r' =>
          rw [hprep] at hr
          cases hr
          obtain ⟨-, hb, -, -, -, hu⟩ := prepare_ok hprep
          exact ⟨file, rfl, hb, hu⟩

end

end Sediment.Proofs.DeliveryEntry

import Sediment.Cli.DeliveryRecords
import Sediment.Proofs.DeliveryEntry

namespace Sediment.Proofs.DeliveryRoundTrip
open Base Decimals JsonScan
open Sediment.Core TextMethods Urls
open Cli.Delivery DeliveryIdentity DeliveryDestination DeliveryEntry

section
variable [UnicodeText] [IpAddresses]

/-- A prepared destination is refused when it is read again for its length, or for a bracket that
its host keeps without the other. -/
theorem prepared_destination_iff (hl : LowerCase) (ha : AddressCase) {channel : String}
    {value dest : List Char} (h : destination channel value = .ok dest) :
    destination channel dest = .ok dest ↔
      dest.length ≤ maxDestination ∧ ('[' ∈ dest → ']' ∈ dest) := by
  obtain ⟨hchannel, scheme, host, port, hn, rfl⟩ := destination_named hl ha h
  rw [hn.destination_iff hchannel, hn.brackets_iff]

theorem prepared_ascii (hl : LowerCase) (ha : AddressCase) {channel : String}
    {value dest : List Char} (h : destination channel value = .ok dest) :
    ∀ c ∈ dest, c.toNat < 128 := by
  obtain ⟨-, scheme, host, port, hn, rfl⟩ := destination_named hl ha h
  intro c hc
  rcases mem_unsplit hn.known hc with hc | hc | hc
  · simp only [List.mem_cons, List.not_mem_nil, or_false] at hc
    rcases hc with rfl | rfl | rfl | rfl | rfl | rfl <;> decide
  · exact (hn.authority_clear hc).2.2
  · exact ingestPath_ascii channel c hc

variable [DatetimeReader] [JsonBytes] [Sha256] {table : DigitTable} {τ : Type} [ClockText τ]

omit [JsonBytes] [ClockText τ] in
/-- The header of a prepared request whose destination is read again can be read back. -/
theorem header_readable (hl : LowerCase) (ha : AddressCase) (ht : DatetimeReader.Lawful)
    (hd : DigestLaw) {channel : String} {dest : List Char} {body : Bytes} {captured : Text}
    {id : List Char} {r : DeliveryRequest}
    (h : prepareRequest table channel dest body captured id = .ok r)
    (hsettled : destination r.channel r.destination = .ok r.destination) (now : τ) :
    Readable table (headerFor r now) := by
  obtain ⟨rfl, rfl, hlen, hdest, hinst, huuid⟩ := prepare_ok h
  have htext := instant_text hinst
  have hchars := uuid_text huuid
  have hascii : ∀ c, LowerHex c ∨ c = '-' → c.toNat < 128 := by
    rintro c (hlow | rfl)
    · exact Nat.lt_succ_of_lt hlow.facts.1
    · decide
  have hdigest : (codes (Sha256.hexdigest r.body)).length = 64 ∧
      (codes (Sha256.hexdigest r.body)).all isLowerHex = true := by
    simpa [isDigest] using hd r.body
  have hsmall : ∀ c ∈ Sha256.hexdigest r.body, c.toNat < 128 := by
    intro c hc
    have hhex := List.all_eq_true.mp hdigest.2 c.toNat (List.mem_map_of_mem hc)
    simp only [isLowerHex, Bool.or_eq_true, Bool.and_eq_true, decide_eq_true_eq] at hhex
    omega
  exact {
    channel := (destination_named hl ha hdest).1
    destination := ⟨((prepared_destination_iff hl ha hdest).mp hsettled).1,
      prepared_ascii hl ha hdest⟩
    capturedAt := ⟨htext.1, htext.2.1⟩
    deliveryId := ⟨hchars.1, fun c hc => hascii c (hchars.2 c hc)⟩
    bytes := hlen
    sha256 := ⟨hdigest.1, codes_small hsmall⟩
    identity := uuid_idem huuid
    settled := hsettled
    captured := ⟨_, instant_idem ht hinst⟩
    plainCaptured := htext.2.2
    plainSha256 := reread_codes _
    digest := hd r.body }

/-- A prepared request is validated as itself, and is read back from the entry it is written to,
exactly when its destination, with the ingest path behind it, keeps to the length and to the
brackets that a destination may have. -/
theorem prepared_reads_back_iff (hl : LowerCase) (ha : AddressCase) (ht : DatetimeReader.Lawful)
    (hc : ClockLaws τ) (hd : DigestLaw) {channel : String} {dest : List Char} {body : Bytes}
    {captured : Text} {id : List Char} {r : DeliveryRequest}
    (h : prepareRequest table channel dest body captured id = .ok r) (limit : Nat) (now : τ) :
    (validated table r = .ok r ∧
      ∀ files, files (entryName r.deliveryId) = some (entryFile (headerFor r now) r.body) →
        header table (limit + 1) files (entryName r.deliveryId) = .ok (headerFor r now) ∧
        request table files (headerFor r now) = .ok r) ↔
      r.destination.length ≤ maxDestination ∧ ('[' ∈ r.destination → ']' ∈ r.destination) := by
  obtain ⟨rfl, rfl, hlen, hdest, hinst, huuid⟩ := prepare_ok h
  have hiff := prepared_destination_iff hl ha hdest
  have hself : instant r.capturedAt = .ok r.capturedAt := instant_idem ht hinst
  have hidem := uuid_idem huuid
  have hvalid : destination r.channel r.destination = .ok r.destination →
      validated table r = .ok r := by
    intro hsettled
    rw [validated, prepareRequest, if_neg (not_lt.mpr hlen), hsettled, hself, hidem]
    rfl
  rw [← hiff]
  constructor
  · intro hback
    exact (prepare_ok hback.1).2.2.2.1
  · intro hsettled
    refine ⟨hvalid hsettled, ?_⟩
    intro files hfile
    have hread := header_readable hl ha ht hd h hsettled now
    refine ⟨header_written hc hread rfl limit hfile, ?_⟩
    have hv := hvalid hsettled
    rw [validated] at hv
    rw [request_written hc hread rfl rfl hfile]
    exact congrArg (Except.mapError Failure.delivery) hv

end

/-- A time in whole seconds that `repr` writes without an exponent. -/
abbrev Seconds := Fin (10 ^ 16)

/-- `float.__repr__` of a whole number. -/
def wholeText (n : Nat) : List Char := Nat.toDigits 10 n ++ ".0".toList

def wholeOf (text : List Char) : Option Seconds :=
  let n := decimal (text.takeWhile Char.isDigit)
  if h : n < 10 ^ 16 then if text = wholeText n then some ⟨n, h⟩ else none else none

/-- A clock that ticks by the second. -/
abbrev secondsClock : Clock Seconds where
  repr t := wholeText t.val
  ofNat n := if h : n < 10 ^ 16 then some ⟨n, h⟩ else none
  ofFloat := wholeOf
  zero := ⟨0, by decide⟩
  elapsed now t := (now.val : ℚ) - t.val
  later t s := ⟨min (t.val + ⌈s⌉₊) (10 ^ 16 - 1), by omega⟩

theorem wholeOf_wholeText (t : Seconds) : wholeOf (wholeText t.val) = some t := by
  have hdigit : ∀ c ∈ Nat.toDigits 10 t.val, c.isDigit = true :=
    fun c hc => Nat.isDigit_of_mem_toDigits (by decide) (by decide) hc
  have hpoint : ".0".toList = ['.', '0'] := by decide
  have htake : (wholeText t.val).takeWhile Char.isDigit = Nat.toDigits 10 t.val := by
    rw [wholeText, hpoint, List.takeWhile_append_of_pos hdigit,
      List.takeWhile_cons_of_neg (by decide), List.append_nil]
  have hvalue : decimal (Nat.toDigits 10 t.val) = t.val := by
    rw [decimal, decimal_ofDigitChars, Nat.ofDigitChars_ten_toDigits]
  unfold wholeOf
  simp only [htake, hvalue]
  rw [dif_pos t.isLt, if_pos trivial]

theorem wholeText_printable (n : Nat) : Printable (wholeText n) :=
  Printable.append (digits_printable n) (literal_printable (by decide))

theorem secondsClock_laws : @ClockLaws Seconds secondsClock.toClockText := by
  have hshort : ∀ t : Seconds, (wholeText t.val).length ≤ 32 := by
    intro t
    have hdigits : (Nat.toDigits 10 t.val).length ≤ 16 :=
      (Nat.length_toDigits_le_iff (by decide) (by decide)).mpr t.isLt
    have hpoint : ".0".toList.length = 2 := by decide
    rw [wholeText, List.length_append, hpoint]
    omega
  exact @ClockLaws.mk Seconds secondsClock.toClockText (fun t => stays_whole t.val)
    wholeOf_wholeText (fun t => wholeText_printable t.val) hshort

def someBody : Bytes := [123, 10, 125]

def otherBody : Bytes := [91, 10, 93]

/-- The digests of the two bodies. -/
abbrev bodyDigests : Sha256 where
  hexdigest body :=
    if body = otherBody then
      "94aeb2d1f95b0496a43379e486d9aaa8fb6e26b3780f69fda4cfe4d0c3c34747".toList
    else "8eb95bcbc154530931e15fc418c8b1fe991095671409552099ea1aa596999ede".toList

theorem bodyDigests_law : @DigestLaw bodyDigests := by
  intro body
  change isDigest (codes (if body = otherBody then _ else _)) = true
  split <;> decide +kernel

abbrev isoReader : DatetimeReader :=
  ⟨fun t => (readIsoformat (t.map Char.ofNat)).map .aware⟩

theorem isoReader_lawful : @DatetimeReader.Lawful isoReader := by
  intro d
  change (readIsoformat (d.isoText.map Char.ofNat)).map PyDatetime.aware = _
  rw [Datetime.isoText, map_ofNat_toNat, readIsoformat_isoformat]
  rfl

theorem asciiText_lower : @LowerCase ServerUrls.asciiText := by
  refine @LowerCase.mk ServerUrls.asciiText (fun _ _ => rfl) ?_
  intro s h
  change s.map Char.toLower = _
  apply List.map_congr_left
  intro c hc
  rw [lowerAscii, if_neg]
  rintro rfl
  have hbig := h _ (List.mem_map_of_mem hc)
  exact absurd hbig (by decide)

theorem noAddresses_case : @AddressCase ServerUrls.asciiText ServerUrls.noAddresses :=
  @AddressCase.mk ServerUrls.asciiText ServerUrls.noAddresses (fun _ => rfl) (fun _ => rfl)

/-- Every byte of the texts below is of ASCII. -/
abbrev noBytes : JsonBytes := ⟨fun _ _ => none⟩

def earlyTime : Seconds := ⟨100, by decide⟩

def someInstant : Text := codePoints "2026-01-02T03:04:05+01:00"

def someId : List Char := "0F0E0D0C-0B0A-0908-0706-050403020100".toList

def preparedRequest : DeliveryRequest where
  channel := "gateway"
  destination := "http://localhost:80/ingest/gateway".toList
  body := someBody
  capturedAt := codePoints "2026-01-02T02:04:05+00:00"
  deliveryId := "0f0e0d0c-0b0a-0908-0706-050403020100".toList

section
local instance : UnicodeText := ServerUrls.asciiText
local instance : IpAddresses := ServerUrls.noAddresses
local instance : DatetimeReader := isoReader
local instance : Clock Seconds := secondsClock
local instance : Sha256 := bodyDigests
local instance : JsonBytes := noBytes

theorem request_prepared : prepareRequest DigitTable.plain "gateway"
    "http://LocalHost:080/".toList someBody someInstant someId = .ok preparedRequest := by
  decide +kernel

theorem destination_kept : preparedRequest.destination.length ≤ maxDestination ∧
    ('[' ∈ preparedRequest.destination → ']' ∈ preparedRequest.destination) := by
  decide +kernel

/-- A destination with room for the ingest path behind it is read back. -/
theorem short_destination_reads_back :
    validated DigitTable.plain preparedRequest = .ok preparedRequest ∧
      ∀ files, files (entryName preparedRequest.deliveryId) =
          some (entryFile (headerFor preparedRequest earlyTime) preparedRequest.body) →
        header DigitTable.plain 1 files (entryName preparedRequest.deliveryId) =
          .ok (headerFor preparedRequest earlyTime) ∧
        request DigitTable.plain files (headerFor preparedRequest earlyTime) =
          .ok preparedRequest :=
  (prepared_reads_back_iff asciiText_lower noAddresses_case isoReader_lawful secondsClock_laws
    bodyDigests_law request_prepared 0 earlyTime).mpr destination_kept

end

/-- A host so long that the ingest path no longer fits behind it. -/
def longDestination : List Char := "https://".toList ++ List.replicate 2040 'a'

/-- A destination of the greatest length is prepared, and then refused. -/
theorem long_destination_refused :
    letI : UnicodeText := ServerUrls.asciiText
    letI : IpAddresses := ServerUrls.noAddresses
    letI : DatetimeReader := isoReader
    (prepareRequest DigitTable.plain "gateway" longDestination someBody someInstant
        someId).toOption.isSome = true ∧
      (prepareRequest DigitTable.plain "gateway" longDestination someBody someInstant
        someId).bind (validated DigitTable.plain) = .error .invalidRequest := by
  decide +kernel

end Sediment.Proofs.DeliveryRoundTrip

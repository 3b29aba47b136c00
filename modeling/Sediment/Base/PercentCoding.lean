import Mathlib.Data.List.SplitBy
import Sediment.Base.JsonScan

namespace Sediment.Base.PercentCoding
open JsonScan (hexValue)

/-- The bytes that `quote` leaves alone: letters, digits and four marks. -/
def alwaysSafe (b : UInt8) : Bool :=
  let n := b.toNat
  (48 ≤ n && n ≤ 57) || (65 ≤ n && n ≤ 90) || (97 ≤ n && n ≤ 122) ||
    n == 45 || n == 46 || n == 95 || n == 126

def upperHex (n : Nat) : Char := "0123456789ABCDEF".toList.getD n '0'

def quoteByte (b : UInt8) : List Char :=
  if alwaysSafe b then [Char.ofNat b.toNat]
  else ['%', upperHex (b.toNat / 16), upperHex (b.toNat % 16)]

def quoteChars (s : List Char) : List Char :=
  (s.flatMap String.utf8EncodeChar).flatMap quoteByte

/-- `urllib.parse.quote(s, safe="")`. -/
def quote (s : String) : String := String.ofList (quoteChars s.toList)

/-- What the decoder makes of bytes that are not UTF-8, with `errors="replace"`. -/
class Replacement where
  replace : List UInt8 → List Char

/-- An escape that is not two hex digits stands for itself. -/
def unquoteToBytes : List Char → List UInt8
  | '%' :: a :: b :: rest =>
    match hexValue a, hexValue b with
    | some x, some y => UInt8.ofNat (16 * x + y) :: unquoteToBytes rest
    | _, _ => 37 :: unquoteToBytes (a :: b :: rest)
  | c :: rest => String.utf8EncodeChar c ++ unquoteToBytes rest
  | [] => []

def isAscii (c : Char) : Bool := c.toNat < 128

section
variable [Replacement]

def decodeUtf8 (bytes : List UInt8) : List Char :=
  match bytes.toByteArray.utf8Decode? with
  | some text => text.toList
  | none => Replacement.replace bytes

def unquoteRun (run : List Char) : List Char :=
  if run.all isAscii then decodeUtf8 (unquoteToBytes run) else run

/-- `urllib.parse.unquote`: only runs of ASCII characters hold escapes. -/
def unquote (s : String) : String :=
  if '%' ∈ s.toList then
    String.ofList ((s.toList.splitBy (fun a b => isAscii a == isAscii b)).flatMap unquoteRun)
  else s

end

theorem hexValue_upperHex (n : Nat) (h : n < 16) : hexValue (upperHex n) = some n :=
  (by decide : ∀ n : Fin 16, hexValue (upperHex n) = some n.val) ⟨n, h⟩

theorem isAscii_upperHex (n : Nat) (h : n < 16) : isAscii (upperHex n) = true :=
  (by decide : ∀ n : Fin 16, isAscii (upperHex n) = true) ⟨n, h⟩

theorem upperHex_ne_slash (n : Nat) (h : n < 16) : upperHex n ≠ '/' :=
  (by decide : ∀ n : Fin 16, upperHex n ≠ '/') ⟨n, h⟩

theorem toNat_ofNat {n : Nat} (h : n < 128) : (Char.ofNat n).toNat = n := by
  have hv : n.isValidChar := Or.inl (by omega)
  rw [Char.toNat, Char.ofNat, dif_pos hv]
  rfl

/-- A safe byte is an ASCII character of its own, and no separator or escape. -/
theorem of_alwaysSafe {b : UInt8} (h : alwaysSafe b = true) :
    b.toNat < 128 ∧ Char.ofNat b.toNat ≠ '%' ∧ Char.ofNat b.toNat ≠ '/' := by
  simp only [alwaysSafe, Bool.or_eq_true, Bool.and_eq_true, decide_eq_true_eq, beq_iff_eq] at h
  have hlt : b.toNat < 128 := by omega
  refine ⟨hlt, ?_, ?_⟩
  · intro he
    have hn := congrArg Char.toNat he
    rw [toNat_ofNat hlt, show '%'.toNat = 37 from rfl] at hn
    omega
  · intro he
    have hn := congrArg Char.toNat he
    rw [toNat_ofNat hlt, show '/'.toNat = 47 from rfl] at hn
    omega

theorem utf8EncodeChar_ascii {c : Char} (h : c.toNat < 128) :
    String.utf8EncodeChar c = [UInt8.ofNat c.toNat] :=
  if_pos (Nat.le_of_lt_succ h)

theorem unquoteToBytes_cons {c : Char} (h : c ≠ '%') (rest : List Char) :
    unquoteToBytes (c :: rest) = String.utf8EncodeChar c ++ unquoteToBytes rest := by
  rw [unquoteToBytes]
  intro a b tail he
  exact absurd he h

theorem unquoteToBytes_quoteByte (b : UInt8) (rest : List Char) :
    unquoteToBytes (quoteByte b ++ rest) = b :: unquoteToBytes rest := by
  unfold quoteByte
  split
  · rename_i hs
    obtain ⟨hlt, hpercent, -⟩ := of_alwaysSafe hs
    have hn := toNat_ofNat hlt
    rw [List.singleton_append, unquoteToBytes_cons hpercent,
      utf8EncodeChar_ascii (by rw [hn]; exact hlt), hn]
    simp
  · have hb := b.toNat_lt
    simp only [List.cons_append, List.nil_append, unquoteToBytes]
    rw [hexValue_upperHex _ (by omega), hexValue_upperHex _ (by omega)]
    simp only [List.cons.injEq, and_true]
    rw [Nat.div_add_mod]
    simp

theorem unquoteToBytes_flatMap (bytes : List UInt8) :
    unquoteToBytes (bytes.flatMap quoteByte) = bytes := by
  induction bytes with
  | nil => rfl
  | cons b bytes ih => rw [List.flatMap_cons, unquoteToBytes_quoteByte, ih]

theorem unquoteToBytes_plain {t : List Char} (h : '%' ∉ t) :
    unquoteToBytes t = t.flatMap String.utf8EncodeChar := by
  induction t with
  | nil => rfl
  | cons c t ih =>
    rw [List.mem_cons, not_or] at h
    rw [unquoteToBytes_cons (Ne.symm h.1), ih h.2, List.flatMap_cons]

theorem isAscii_quoteByte {b : UInt8} : ∀ c ∈ quoteByte b, isAscii c = true := by
  intro c hc
  have hb := b.toNat_lt
  unfold quoteByte at hc
  split at hc
  · rename_i hs
    rw [List.mem_singleton.mp hc, isAscii, toNat_ofNat (of_alwaysSafe hs).1]
    exact decide_eq_true (of_alwaysSafe hs).1
  · rcases List.mem_cons.mp hc with rfl | hc
    · decide
    · rcases List.mem_cons.mp hc with rfl | hc
      · exact isAscii_upperHex _ (by omega)
      · rw [List.mem_singleton.mp hc]
        exact isAscii_upperHex _ (by omega)

theorem slash_not_mem_quoteByte (b : UInt8) : '/' ∉ quoteByte b := by
  intro hc
  have hb := b.toNat_lt
  unfold quoteByte at hc
  split at hc
  · rename_i hs
    exact (of_alwaysSafe hs).2.2 (List.mem_singleton.mp hc).symm
  · rcases List.mem_cons.mp hc with hc | hc
    · exact absurd hc (by decide)
    · rcases List.mem_cons.mp hc with hc | hc
      · exact upperHex_ne_slash _ (by omega) hc.symm
      · exact upperHex_ne_slash _ (by omega) (List.mem_singleton.mp hc).symm

theorem isAscii_quoteChars (s : List Char) : (quoteChars s).all isAscii = true := by
  rw [List.all_eq_true]
  intro c hc
  obtain ⟨b, -, hb⟩ := List.mem_flatMap.mp hc
  exact isAscii_quoteByte c hb

theorem slash_not_mem_quote (s : String) : '/' ∉ (quote s).toList := by
  rw [quote, String.toList_ofList]
  intro hc
  obtain ⟨b, -, hb⟩ := List.mem_flatMap.mp hc
  exact slash_not_mem_quoteByte b hb

/-- A separator inside the text shows as an escape. -/
theorem percent_mem_quote {s : String} (h : '/' ∈ s.toList) : '%' ∈ (quote s).toList := by
  rw [quote, String.toList_ofList, quoteChars, List.mem_flatMap]
  refine ⟨47, List.mem_flatMap.mpr ⟨'/', h, by decide⟩, by decide⟩

section
variable [Replacement]

theorem decodeUtf8_encode (s : List Char) :
    decodeUtf8 (s.flatMap String.utf8EncodeChar) = s := by
  have h : (s.flatMap String.utf8EncodeChar).toByteArray.utf8Decode? = some s.toArray :=
    List.utf8Decode?_utf8Encode
  rw [decodeUtf8, h]

theorem unquoteRun_quoteChars (s : List Char) : unquoteRun (quoteChars s) = s := by
  rw [unquoteRun, if_pos (isAscii_quoteChars s), quoteChars, unquoteToBytes_flatMap,
    decodeUtf8_encode]

/-- Unquoting undoes quoting. -/
theorem unquote_quote (s : String) : unquote (quote s) = s := by
  have hascii := isAscii_quoteChars s.toList
  rw [List.all_eq_true] at hascii
  rw [unquote, quote, String.toList_ofList]
  split
  · rename_i hp
    rw [List.splitBy_of_isChain (List.ne_nil_of_mem hp), List.flatMap_singleton,
      unquoteRun_quoteChars, String.ofList_toList]
    apply List.Pairwise.isChain
    exact List.pairwise_of_forall_mem_list (fun a ha b hb => by simp [hascii a ha, hascii b hb])
  · rename_i hp
    have hbytes := unquoteToBytes_plain hp
    rw [quoteChars, unquoteToBytes_flatMap] at hbytes
    have htext := congrArg decodeUtf8 hbytes
    rw [decodeUtf8_encode, decodeUtf8_encode] at htext
    rw [quoteChars, ← htext, String.ofList_toList]

end

theorem quote_injective : Function.Injective quote := by
  intro s t h
  let : Replacement := ⟨fun _ => []⟩
  rw [← unquote_quote s, h, unquote_quote]

end Sediment.Base.PercentCoding

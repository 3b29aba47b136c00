import Sediment.Base.JsonDumps
import Sediment.Cli.DeliveryRequest

namespace Sediment.Proofs.DeliveryIdentity
open Base Decimals JsonScan
open Sediment.Core TextMethods
open Cli.Delivery

def LowerHex (c : Char) : Prop := ∃ n < 16, c = hexDigit n

theorem hexDigit_lower (n : Nat) : LowerHex (hexDigit (n % 16)) :=
  ⟨n % 16, Nat.mod_lt _ (by decide), rfl⟩

theorem length_hexText (k n : Nat) : (hexText k n).length = k := by
  induction k generalizing n with
  | zero => rfl
  | succ k ih => simp [hexText, ih]

theorem hexText_lower (k n : Nat) : ∀ c ∈ hexText k n, LowerHex c := by
  induction k generalizing n with
  | zero => simp [hexText]
  | succ k ih =>
    intro c hc
    rw [hexText, List.mem_append, List.mem_singleton] at hc
    rcases hc with hc | rfl
    · exact ih _ c hc
    · exact hexDigit_lower n

/-- What a digit of an identity is to the readers of a number. -/
theorem LowerHex.facts {c : Char} (h : LowerHex c) :
    c.toNat < 127 ∧ isAsciiSpace c = false ∧ isBrace c = false ∧ c ≠ '-' ∧ c ≠ '+' ∧ c ≠ '_' ∧
      c ≠ ':' ∧ c ≠ 'x' ∧ c ≠ 'X' ∧ inHexNumber c = true := by
  obtain ⟨n, hn, rfl⟩ := h
  interval_cases n <;> decide

theorem hexNumber_snoc (digits : List Char) {n : Nat} (hn : n < 16) :
    hexNumber (digits ++ [hexDigit n]) = hexNumber digits * 16 + n := by
  rw [hexNumber, List.foldl_append, List.foldl_cons, List.foldl_nil, hexValue_hexDigit n hn]
  rfl

theorem hexNumber_hexText (k n : Nat) : hexNumber (hexText k n) = n % 16 ^ k := by
  induction k generalizing n with
  | zero => simp [hexText, hexNumber, Nat.mod_one]
  | succ k ih =>
    rw [hexText, hexNumber_snoc _ (Nat.mod_lt _ (by decide)), ih, Nat.pow_succ', Nat.mod_mul]
    ring

/-- The groups of digits are those of the whole number. -/
theorem hexText_append (j k n : Nat) : hexText j (n / 16 ^ k) ++ hexText k n = hexText (j + k) n := by
  induction k generalizing n with
  | zero => simp [hexText]
  | succ k ih =>
    rw [← Nat.add_assoc, hexText, hexText, ← List.append_assoc, ← ih, Nat.div_div_eq_div_mul,
      Nat.pow_succ']

theorem uuidText_digits (n : Nat) : (uuidText n).filter (· ≠ '-') = hexText 32 n := by
  have hkeep : ∀ k m, (hexText k m).filter (· ≠ '-') = hexText k m := by
    intro k m
    rw [List.filter_eq_self]
    intro c hc
    simpa using (hexText_lower k m c hc).facts.2.2.2.1
  simp only [uuidText, List.filter_append, List.filter_cons, hkeep, ne_eq,
    not_true_eq_false, decide_false, Bool.false_eq_true, if_false]
  have h20 := hexText_append 8 4 (n / 16 ^ 20)
  have h16 := hexText_append 12 4 (n / 16 ^ 16)
  have h12 := hexText_append 16 4 (n / 16 ^ 12)
  have h0 := hexText_append 20 12 n
  rw [Nat.div_div_eq_div_mul, ← Nat.pow_add] at h20 h16 h12
  simp only [Nat.reduceAdd] at h20 h16 h12 h0
  rw [← h0, ← h12, ← h16, ← h20]

theorem uuidText_chars (n : Nat) : ∀ c ∈ uuidText n, LowerHex c ∨ c = '-' := by
  intro c hc
  by_cases hdash : c = '-'
  · exact Or.inr hdash
  · refine Or.inl (hexText_lower 32 n c ?_)
    rw [← uuidText_digits, List.mem_filter]
    exact ⟨hc, by simpa using hdash⟩

theorem removeWord_of_free {word : List Char} {d : Char} (hd : d ∈ word) {text : List Char}
    (h : d ∉ text) : removeWord word 0 text = text := by
  induction text with
  | nil => rfl
  | cons c rest ih =>
    have hnot : ¬word <+: c :: rest := fun hp => h (hp.subset hd)
    rw [removeWord, if_neg hnot, ih (fun hr => h (List.mem_cons_of_mem _ hr))]

theorem stripBraces_of_free {text : List Char} (h : ∀ c ∈ text, isBrace c = false) :
    stripBraces text = text := by
  have hdrop : ∀ l : List Char, (∀ c ∈ l, isBrace c = false) → l.dropWhile isBrace = l := by
    intro l hl
    rw [List.dropWhile_eq_self_iff]
    intro hpos
    simp [hl _ (List.getElem_mem hpos)]
  rw [stripBraces, hdrop text h, hdrop _ (fun c hc => h c (List.mem_reverse.mp hc)),
    List.reverse_reverse]

theorem hexInt_digits (table : DigitTable) {digits : List Char} (hne : digits ≠ [])
    (h : ∀ c ∈ digits, LowerHex c) : hexInt table digits = some (hexNumber digits : Int) := by
  obtain ⟨c, rest, rfl⟩ := List.exists_cons_of_ne_nil hne
  have hc := (h c (by simp)).facts
  have hmap : (c :: rest).map (toAscii table) = c :: rest := by
    conv_rhs => rw [← List.map_id (c :: rest)]
    apply List.map_congr_left
    intro d hd
    rw [toAscii, if_pos (h d hd).facts.1, id]
  have hmark : numberMark (c :: rest) = (false, c :: rest) := by
    unfold numberMark
    split
    · rename_i heq
      exact absurd (List.cons.inj heq).1 hc.2.2.2.1
    · rename_i heq
      exact absurd (List.cons.inj heq).1 hc.2.2.2.2.1
    · rfl
  have hhex : hexMark (c :: rest) = c :: rest := by
    have hx : ∀ d ∈ c :: rest, ¬(d = 'x' ∨ d = 'X') := by
      intro d hd hx
      have hf := (h d hd).facts
      exact hx.elim hf.2.2.2.2.2.2.2.1 hf.2.2.2.2.2.2.2.2.1
    unfold hexMark
    split
    · rename_i x tail heq
      rw [if_neg (hx x (by rw [heq]; simp)), heq]
    · rename_i x tail hno heq
      rw [if_neg (hx x (by rw [heq]; simp)), heq]
    · rfl
  have hall : ∀ d ∈ c :: rest, inHexNumber d = true := fun d hd => (h d hd).facts.2.2.2.2.2.2.2.2.2
  have hsplit : (c :: rest).splitOn '_' = [c :: rest] := by
    rw [List.splitOn_eq_splitOnP, List.splitOnP_eq_singleton]
    intro d hd
    simpa using (h d hd).facts.2.2.2.2.2.1
  rw [hexInt, hmap, List.dropWhile_cons_of_neg (by simp [hc.2.1]), hmark]
  simp only [hhex, List.takeWhile_eq_self_iff.mpr hall, hsplit,
    List.dropWhile_eq_nil_iff.mpr hall]
  simp

/-- A canonical identity is read as its own number. -/
theorem uuidInt_uuidText (table : DigitTable) {n : Nat} (hn : n < 2 ^ 128) :
    uuidInt table (uuidText n) = some n := by
  have hcolon : ':' ∉ uuidText n := by
    intro hc
    rcases uuidText_chars n _ hc with hlow | heq
    · exact hlow.facts.2.2.2.2.2.2.1 rfl
    · cases heq
  have hbrace : ∀ c ∈ uuidText n, isBrace c = false := by
    intro c hc
    rcases uuidText_chars n c hc with hlow | rfl
    · exact hlow.facts.2.2.1
    · rfl
  have hne : hexText 32 n ≠ [] := by
    intro hnil
    have hlen := length_hexText 32 n
    rw [hnil] at hlen
    cases hlen
  have hint := hexInt_digits table hne (hexText_lower 32 n)
  have hmod : n % 16 ^ 32 = n := Nat.mod_eq_of_lt (by omega)
  rw [uuidInt, removeWord_of_free (d := ':') (by decide) hcolon,
    removeWord_of_free (d := ':') (by decide) hcolon, stripBraces_of_free hbrace]
  simp only [uuidText_digits, length_hexText, ne_eq, not_true_eq_false, if_false, hint,
    hexNumber_hexText]
  rw [hmod, if_pos ⟨by omega, by exact_mod_cast hn⟩, Int.toNat_natCast]

theorem uuidInt_lt {table : DigitTable} {text : List Char} {n : Nat}
    (h : uuidInt table text = some n) : n < 2 ^ 128 := by
  unfold uuidInt at h
  simp only at h
  split at h
  · cases h
  · split at h
    · cases h
    · split at h
      · rename_i hb
        cases h
        omega
      · cases h

/-- An identity in its normal form stays as it is. -/
theorem uuid_idem {table : DigitTable} {value id : List Char} (h : uuid table value = .ok id) :
    uuid table id = .ok id := by
  unfold uuid at h
  split at h
  · cases h
  · rename_i n hn
    cases h
    rw [uuid, uuidInt_uuidText table (uuidInt_lt hn)]

/-- An identity is 36 plain characters. -/
theorem uuid_text {table : DigitTable} {value id : List Char} (h : uuid table value = .ok id) :
    id.length = 36 ∧ ∀ c ∈ id, LowerHex c ∨ c = '-' := by
  unfold uuid at h
  split at h
  · cases h
  · rename_i n hn
    cases h
    refine ⟨?_, uuidText_chars n⟩
    simp [uuidText, length_hexText]

theorem astimezone_idem {d e : Datetime} (h : d.astimezone = some e) :
    e.astimezone = some e := by
  have hoff := Datetime.utc_offset h
  have hzero : e.instant = e.wall := by rw [Datetime.instant, hoff, Int.sub_zero]
  rw [Datetime.astimezone, Datetime.utc, hzero, dif_pos e.in_range]
  congr 1
  cases e
  cases hoff
  rfl

/-- An instant in its normal form stays as it is. -/
theorem instant_idem [DatetimeReader] (hl : DatetimeReader.Lawful) {value text : Text}
    (h : instant value = .ok text) : instant text = .ok text := by
  unfold instant at h
  split at h
  · split at h
    · cases h
    · rename_i d hd
      cases h
      rw [instant, hl]
      simp only [astimezone_idem hd]
  · cases h

end Sediment.Proofs.DeliveryIdentity

import Mathlib.Data.List.Basic
import Mathlib.Tactic

namespace Sediment.Base.Base64

def symbol (v : Nat) : Char :=
  if v < 26 then Char.ofNat (65 + v)
  else if v < 52 then Char.ofNat (97 + (v - 26))
  else if v < 62 then Char.ofNat (48 + (v - 52))
  else if v = 62 then '-'
  else '_'

/-- The value of a symbol, in either alphabet. -/
def sextet (c : Char) : Option Nat :=
  if 'A' ≤ c ∧ c ≤ 'Z' then some (c.toNat - 65)
  else if 'a' ≤ c ∧ c ≤ 'z' then some (c.toNat - 97 + 26)
  else if '0' ≤ c ∧ c ≤ '9' then some (c.toNat - 48 + 52)
  else if c = '-' ∨ c = '+' then some 62
  else if c = '_' ∨ c = '/' then some 63
  else none

/-- `base64.urlsafe_b64encode`. -/
def encode : List Nat → List Char
  | [] => []
  | [a] => [symbol (a / 4), symbol (a % 4 * 16), '=', '=']
  | [a, b] => [symbol (a / 4), symbol (a % 4 * 16 + b / 16), symbol (b % 16 * 4), '=']
  | a :: b :: c :: rest =>
    symbol (a / 4) :: symbol (a % 4 * 16 + b / 16) :: symbol (b % 16 * 4 + c / 64) ::
      symbol (c % 64) :: encode rest

/-- What a quantum has read: how many symbols, the bits left of them, and the pads after them. -/
structure Quantum where
  read : Nat := 0
  left : Nat := 0
  pads : Nat := 0

/-- Foreign characters are passed over; a quantum that its pads complete ends the text. -/
def decodeFrom (q : Quantum) : List Char → Option (List Nat)
  | [] => if q.read = 0 then some [] else none
  | c :: rest =>
    if c = '=' then
      if q.read < 2 then decodeFrom q rest
      else if 4 ≤ q.read + q.pads + 1 then some []
      else decodeFrom { q with pads := q.pads + 1 } rest
    else
      match sextet c with
      | none => decodeFrom q rest
      | some v =>
        match q.read with
        | 0 => decodeFrom { read := 1, left := v } rest
        | 1 => (decodeFrom { read := 2, left := v % 16 } rest).map ((q.left * 4 + v / 16) :: ·)
        | 2 => (decodeFrom { read := 3, left := v % 4 } rest).map ((q.left * 16 + v / 4) :: ·)
        | _ => (decodeFrom {} rest).map ((q.left * 64 + v) :: ·)

/-- `base64.urlsafe_b64decode` of a string; `none` stands for its `ValueError`. -/
def decode (s : List Char) : Option (List Nat) :=
  if s.all (fun c => c.toNat < 128) then decodeFrom {} s else none

/-- `s.rstrip("=")`. -/
def unpad (s : List Char) : List Char := (s.reverse.dropWhile (· == '=')).reverse

/-- `s + "=" * (-len(s) % 4)`. -/
def repad (s : List Char) : List Char := s ++ List.replicate ((4 - s.length % 4) % 4) '='

theorem sextet_symbol {v : Nat} (h : v < 64) :
    sextet (symbol v) = some v ∧ symbol v ≠ '=' ∧ (symbol v).toNat < 128 :=
  (by decide : ∀ v : Fin 64, sextet (symbol v) = some v.val ∧ symbol v ≠ '=' ∧
    (symbol v).toNat < 128) ⟨v, h⟩

theorem decodeFrom_symbol {v : Nat} (h : v < 64) (q : Quantum) (rest : List Char) :
    decodeFrom q (symbol v :: rest) =
      match q.read with
      | 0 => decodeFrom { read := 1, left := v } rest
      | 1 => (decodeFrom { read := 2, left := v % 16 } rest).map ((q.left * 4 + v / 16) :: ·)
      | 2 => (decodeFrom { read := 3, left := v % 4 } rest).map ((q.left * 16 + v / 4) :: ·)
      | _ => (decodeFrom {} rest).map ((q.left * 64 + v) :: ·) := by
  obtain ⟨hs, hpad, -⟩ := sextet_symbol h
  rw [decodeFrom, if_neg hpad, hs]

variable {bytes : List Nat}

theorem decodeFrom_encode (h : ∀ b ∈ bytes, b < 256) : decodeFrom {} (encode bytes) = some bytes := by
  induction bytes using encode.induct with
  | case1 => rfl
  | case2 a =>
    have ha : a < 256 := h a (by simp)
    rw [encode, decodeFrom_symbol (by omega)]
    simp only
    rw [decodeFrom_symbol (by omega)]
    simp [decodeFrom]
    omega
  | case3 a b =>
    have ha : a < 256 := h a (by simp)
    have hb : b < 256 := h b (by simp)
    rw [encode, decodeFrom_symbol (by omega)]
    simp only
    rw [decodeFrom_symbol (by omega)]
    simp only
    rw [decodeFrom_symbol (by omega)]
    simp [decodeFrom]
    omega
  | case4 a b c rest ih =>
    have ha : a < 256 := h a (by simp)
    have hb : b < 256 := h b (by simp)
    have hc : c < 256 := h c (by simp)
    rw [encode, decodeFrom_symbol (by omega)]
    simp only
    rw [decodeFrom_symbol (by omega)]
    simp only
    rw [decodeFrom_symbol (by omega)]
    simp only
    rw [decodeFrom_symbol (by omega)]
    simp only
    rw [ih (fun x hx => h x (by simp [hx]))]
    simp
    omega

theorem encode_ascii (h : ∀ b ∈ bytes, b < 256) : ∀ c ∈ encode bytes, c.toNat < 128 := by
  have hsymbol : ∀ v, v < 64 → (symbol v).toNat < 128 := fun v hv => (sextet_symbol hv).2.2
  induction bytes using encode.induct with
  | case1 => simp [encode]
  | case2 a =>
    have ha : a < 256 := h a (by simp)
    simp only [encode, List.forall_mem_cons]
    exact ⟨hsymbol _ (by omega), hsymbol _ (by omega), by decide, by decide, by simp⟩
  | case3 a b =>
    have ha : a < 256 := h a (by simp)
    have hb : b < 256 := h b (by simp)
    simp only [encode, List.forall_mem_cons]
    exact ⟨hsymbol _ (by omega), hsymbol _ (by omega), hsymbol _ (by omega), by decide, by simp⟩
  | case4 a b c rest ih =>
    have ha : a < 256 := h a (by simp)
    have hb : b < 256 := h b (by simp)
    have hc : c < 256 := h c (by simp)
    simp only [encode, List.forall_mem_cons]
    exact ⟨hsymbol _ (by omega), hsymbol _ (by omega), hsymbol _ (by omega), hsymbol _ (by omega),
      ih (fun x hx => h x (by simp [hx]))⟩

theorem decode_encode (h : ∀ b ∈ bytes, b < 256) : decode (encode bytes) = some bytes := by
  have hascii : (encode bytes).all (fun c => c.toNat < 128) = true := by
    rw [List.all_eq_true]
    exact fun c hc => by simpa using encode_ascii h c hc
  rw [decode, if_pos hascii, decodeFrom_encode h]

/-- An encoded text is its symbols and the pads that complete the last quantum. -/
theorem encode_pads (h : ∀ b ∈ bytes, b < 256) : ∃ body pads, encode bytes = body ++ pads ∧
    (∀ c ∈ body, c ≠ '=') ∧ pads = List.replicate ((4 - body.length % 4) % 4) '=' := by
  have hsymbol : ∀ v, v < 64 → symbol v ≠ '=' := fun v hv => (sextet_symbol hv).2.1
  induction bytes using encode.induct with
  | case1 => exact ⟨[], [], rfl, by simp, rfl⟩
  | case2 a =>
    have ha : a < 256 := h a (by simp)
    refine ⟨[symbol (a / 4), symbol (a % 4 * 16)], ['=', '='], rfl, ?_, rfl⟩
    simp only [List.forall_mem_cons]
    exact ⟨hsymbol _ (by omega), hsymbol _ (by omega), by simp⟩
  | case3 a b =>
    have ha : a < 256 := h a (by simp)
    have hb : b < 256 := h b (by simp)
    refine ⟨[symbol (a / 4), symbol (a % 4 * 16 + b / 16), symbol (b % 16 * 4)], ['='], rfl, ?_,
      rfl⟩
    simp only [List.forall_mem_cons]
    exact ⟨hsymbol _ (by omega), hsymbol _ (by omega), hsymbol _ (by omega), by simp⟩
  | case4 a b c rest ih =>
    have ha : a < 256 := h a (by simp)
    have hb : b < 256 := h b (by simp)
    have hc : c < 256 := h c (by simp)
    obtain ⟨body, pads, hbody, hplain, hpads⟩ := ih (fun x hx => h x (by simp [hx]))
    refine ⟨symbol (a / 4) :: symbol (a % 4 * 16 + b / 16) :: symbol (b % 16 * 4 + c / 64) ::
      symbol (c % 64) :: body, pads, ?_, ?_, ?_⟩
    · rw [encode, hbody]
      rfl
    · simp only [List.forall_mem_cons]
      exact ⟨hsymbol _ (by omega), hsymbol _ (by omega), hsymbol _ (by omega),
        hsymbol _ (by omega), hplain⟩
    · rw [hpads]
      simp only [List.length_cons]
      congr 2
      omega

theorem repad_unpad_encode (h : ∀ b ∈ bytes, b < 256) :
    repad (unpad (encode bytes)) = encode bytes := by
  obtain ⟨body, pads, henc, hplain, hpads⟩ := encode_pads h
  have hstrip : unpad (encode bytes) = body := by
    rw [unpad, henc, hpads, List.reverse_append, List.reverse_replicate]
    have hskip : ∀ (n : Nat) (s : List Char),
        (List.replicate n '=' ++ s).dropWhile (· == '=') = s.dropWhile (· == '=') := by
      intro n s
      induction n with
      | zero => rfl
      | succ n ih => simp [List.replicate_succ, ih]
    rw [hskip]
    cases hrev : body.reverse with
    | nil => simp [List.reverse_eq_nil_iff.mp hrev]
    | cons c rest =>
      have hc : c ≠ '=' := hplain c (by rw [← List.mem_reverse, hrev]; simp)
      rw [List.dropWhile_cons_of_neg (by simpa using hc), ← hrev, List.reverse_reverse]
  rw [hstrip, repad, henc, hpads]

/-- What is encoded without its pads is read back. -/
theorem decode_repad (h : ∀ b ∈ bytes, b < 256) :
    decode (repad (unpad (encode bytes))) = some bytes := by
  rw [repad_unpad_encode h, decode_encode h]

end Sediment.Base.Base64

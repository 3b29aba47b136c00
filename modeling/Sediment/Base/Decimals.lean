import Mathlib.Tactic

namespace Sediment.Base.Decimals

/-- `sys.int_info.default_max_str_digits`. -/
def maxStrDigits : Nat := 4300

/-- `int(digits)` of ASCII digits; `none` stands for the `ValueError` of a text too long. -/
def asciiInt (digits : List Char) : Option Nat :=
  if digits.length ≤ maxStrDigits then some (Nat.ofDigitChars 10 digits 0) else none

/-- The characters a regular expression takes for `\d`, each with the digit `int` reads. -/
structure DigitTable where
  value : Char → Option Nat
  ascii : ∀ c, c.toNat < 128 →
    value c = if c.isDigit then some (c.toNat - '0'.toNat) else none

namespace DigitTable
variable (table : DigitTable)

def isDigit (c : Char) : Bool := (table.value c).isSome

/-- `int(digits)`. -/
def int (digits : List Char) : Option Nat :=
  if digits.length ≤ maxStrDigits then
    some (digits.foldl (fun n c => 10 * n + (table.value c).getD 0) 0)
  else none

/-- Only ASCII digits. -/
def plain : DigitTable where
  value c := if c.isDigit then some (c.toNat - '0'.toNat) else none
  ascii _ _ := rfl

theorem value_ascii {c : Char} (h : c.isDigit = true) :
    table.value c = some (c.toNat - '0'.toNat) := by
  have hlow : c.toNat < 128 := by
    simp only [Char.isDigit, Bool.and_eq_true, decide_eq_true_eq] at h
    have hnine : c.toNat ≤ '9'.toNat := h.2
    exact lt_of_le_of_lt hnine (by decide)
  rw [table.ascii c hlow, if_pos h]

theorem isDigit_ascii {c : Char} (h : c.isDigit = true) : table.isDigit c = true := by
  rw [isDigit, table.value_ascii h]
  rfl

theorem not_isDigit_ascii {c : Char} (hlow : c.toNat < 128) (h : c.isDigit = false) :
    table.isDigit c = false := by
  rw [isDigit, table.ascii c hlow, h]
  rfl

theorem foldl_ascii {digits : List Char} (h : ∀ c ∈ digits, c.isDigit = true) (n : Nat) :
    digits.foldl (fun n c => 10 * n + (table.value c).getD 0) n = Nat.ofDigitChars 10 digits n := by
  induction digits generalizing n with
  | nil => simp
  | cons c digits ih =>
    obtain ⟨hc, hdigits⟩ := List.forall_mem_cons.mp h
    rw [List.foldl_cons, ih hdigits, table.value_ascii hc, Nat.ofDigitChars_cons]
    rfl

theorem int_ascii {digits : List Char} (h : ∀ c ∈ digits, c.isDigit = true) :
    table.int digits = asciiInt digits := by
  rw [int, asciiInt, table.foldl_ascii h]

end DigitTable

/-- `digits.lstrip("0")`. -/
def stripZeros (digits : List Char) : List Char := digits.dropWhile (· = '0')

/-- `len(str(n))`. -/
def width (n : Nat) : Nat := (Nat.toDigits 10 n).length

theorem ofDigitChars_stripZeros (digits : List Char) :
    Nat.ofDigitChars 10 (stripZeros digits) 0 = Nat.ofDigitChars 10 digits 0 := by
  induction digits with
  | nil => rfl
  | cons c digits ih =>
    rw [stripZeros, List.dropWhile_cons]
    split
    · rename_i hc
      rw [decide_eq_true_eq] at hc
      rw [← stripZeros, ih, hc, Nat.ofDigitChars_cons]
      rfl
    · rfl

/-- Digits without zeros before them are at most as many as the number they spell has. -/
theorem length_stripZeros_le {digits : List Char} (h : ∀ c ∈ digits, c.isDigit = true) {n : Nat}
    (hle : Nat.ofDigitChars 10 digits 0 ≤ n) : (stripZeros digits).length ≤ width n := by
  rw [← ofDigitChars_stripZeros] at hle
  have hsub : ∀ c ∈ stripZeros digits, c.isDigit = true :=
    fun c hc => h c ((List.dropWhile_suffix _).mem hc)
  cases hdigits : stripZeros digits with
  | nil => exact Nat.zero_le _
  | cons c rest =>
    have hhead : c ≠ '0' := by
      intro heq
      have hdrop := List.head?_dropWhile_not (· = '0') digits
      rw [← stripZeros, hdigits] at hdrop
      simp [heq] at hdrop
    have hdigit := hsub c (by simp [hdigits])
    have hpos : 1 ≤ c.toNat - '0'.toNat := by
      simp only [Char.isDigit, Bool.and_eq_true, decide_eq_true_eq] at hdigit
      have hzero : '0'.toNat ≤ c.toNat := hdigit.1
      have hne : c.toNat ≠ '0'.toNat := fun heq => hhead (Char.toNat_inj.mp heq)
      omega
    have hbig : 10 ^ rest.length ≤ n := by
      refine le_trans ?_ hle
      rw [hdigits, Nat.ofDigitChars_cons, Nat.ofDigitChars_eq_ofDigitChars_zero]
      calc 10 ^ rest.length = 10 ^ rest.length * 1 := (Nat.mul_one _).symm
        _ ≤ 10 ^ rest.length * (10 * 0 + (c.toNat - '0'.toNat)) :=
          Nat.mul_le_mul_left _ (by omega)
        _ ≤ _ := Nat.le_add_right _ _
    by_contra hlt
    rw [List.length_cons, not_le, Nat.lt_succ_iff] at hlt
    have hsmall := (Nat.length_toDigits_le_iff (by decide : 1 < 10)
      (lt_of_lt_of_le Nat.length_toDigits_pos hlt)).mp hlt
    omega

end Sediment.Base.Decimals

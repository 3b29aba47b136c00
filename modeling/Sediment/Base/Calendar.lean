import Mathlib.Data.List.Basic
import Mathlib.Tactic

namespace Sediment.Base.Calendar

/-- The last `k` digits of a number. -/
def pad : Nat → Nat → List Char
  | 0, _ => []
  | k + 1, n => pad k (n / 10) ++ [Char.ofNat (48 + n % 10)]

def digits (s : List Char) : Nat := s.foldl (fun n c => n * 10 + (c.toNat - 48)) 0

def readField (k : Nat) (s : List Char) : Option (Nat × List Char) :=
  if (s.take k).length = k ∧ (s.take k).all Char.isDigit then some (digits (s.take k), s.drop k)
  else none

theorem digit_char (n : Nat) : (Char.ofNat (48 + n % 10)).isDigit ∧
    (Char.ofNat (48 + n % 10)).toNat = 48 + n % 10 :=
  (by decide : ∀ d : Fin 10, (Char.ofNat (48 + d)).isDigit ∧ (Char.ofNat (48 + d)).toNat = 48 + d)
    ⟨n % 10, Nat.mod_lt _ (by decide)⟩

theorem length_pad (k n : Nat) : (pad k n).length = k := by
  induction k generalizing n with
  | zero => rfl
  | succ k ih => rw [pad, List.length_append, ih]; rfl

theorem pad_isDigit (k n : Nat) : ∀ c ∈ pad k n, c.isDigit := by
  induction k generalizing n with
  | zero => simp [pad]
  | succ k ih =>
    intro c hc
    rw [pad, List.mem_append, List.mem_singleton] at hc
    rcases hc with hc | hc
    · exact ih _ c hc
    · rw [hc]
      exact (digit_char n).1

theorem digits_pad (k n : Nat) : digits (pad k n) = n % 10 ^ k := by
  induction k generalizing n with
  | zero => simp [pad, digits, Nat.mod_one]
  | succ k ih =>
    have hlast : digits (pad k (n / 10) ++ [Char.ofNat (48 + n % 10)]) =
        digits (pad k (n / 10)) * 10 + n % 10 := by
      simp only [digits, List.foldl_append, List.foldl_cons, List.foldl_nil, (digit_char n).2]
      omega
    rw [pad, hlast, ih, Nat.pow_succ', Nat.mod_mul]
    omega

/-- A padded number is read back, whatever follows it. -/
theorem readField_pad {k n : Nat} (h : n < 10 ^ k) (rest : List Char) :
    readField k (pad k n ++ rest) = some (n, rest) := by
  have htake : (pad k n ++ rest).take k = pad k n := by
    rw [List.take_append_of_le_length (by rw [length_pad]), List.take_of_length_le]
    rw [length_pad]
  have hdrop : (pad k n ++ rest).drop k = rest := by
    rw [List.drop_append_of_le_length (by rw [length_pad]), List.drop_of_length_le]
    · rfl
    · rw [length_pad]
  have hall : (pad k n).all Char.isDigit = true := by
    rw [List.all_eq_true]
    exact pad_isDigit k n
  rw [readField, htake, hdrop, if_pos ⟨length_pad k n, hall⟩, digits_pad, Nat.mod_eq_of_lt h]

structure Date where
  year : Nat
  month : Nat
  day : Nat
  deriving DecidableEq, Repr

def isLeap (year : Nat) : Bool := year % 4 = 0 ∧ (year % 100 ≠ 0 ∨ year % 400 = 0)

def daysBeforeYear (year : Nat) : Nat :=
  (year - 1) * 365 + (year - 1) / 4 - (year - 1) / 100 + (year - 1) / 400

/-- `_DAYS_BEFORE_MONTH`, from January on. -/
def daysBefore : List Nat := [0, 31, 59, 90, 120, 151, 181, 212, 243, 273, 304, 334]

def daysBeforeMonth (leap : Bool) (month : Nat) : Nat :=
  daysBefore.getD (month - 1) 0 + if 2 < month ∧ leap then 1 else 0

/-- The days up to a date, counted from the first of year 1. -/
def dayNumber (d : Date) : Nat :=
  daysBeforeYear d.year + daysBeforeMonth (isLeap d.year) d.month + (d.day - 1)

/-- The month that holds a day of the year: an estimate that is at most one too high. -/
def monthOf (leap : Bool) (n : Nat) : Nat :=
  let month := (n + 50) / 32
  if n < daysBeforeMonth leap month then month - 1 else month

/-- The date of a day, by its periods of 400, 100, 4 and 1 years. -/
def dateOf (n : Nat) : Date :=
  let n400 := n / 146097
  let n100 := n % 146097 / 36524
  let n4 := n % 146097 % 36524 / 1461
  let n1 := n % 146097 % 36524 % 1461 / 365
  let rest := n % 146097 % 36524 % 1461 % 365
  let year := n400 * 400 + n100 * 100 + n4 * 4 + n1 + 1
  if n1 = 4 ∨ n100 = 4 then ⟨year - 1, 12, 31⟩
  else
    let month := monthOf (isLeap year) rest
    ⟨year, month, rest - daysBeforeMonth (isLeap year) month + 1⟩

theorem daysBeforeYear_succ (a b c d : Nat) (hb : b < 4) (hc : c < 25) (hd : d < 4) :
    daysBeforeYear (a * 400 + b * 100 + c * 4 + d + 1) =
      a * 146097 + b * 36524 + c * 1461 + d * 365 := by
  unfold daysBeforeYear
  omega

/-- The month of a day starts no later than the day, and the day is one of its 31. -/
theorem monthOf_spec (leap : Bool) {n : Nat} (h : n < 365) :
    daysBeforeMonth leap (monthOf leap n) ≤ n ∧
      n - daysBeforeMonth leap (monthOf leap n) < 31 ∧ monthOf leap n ≤ 12 := by
  have hall : ∀ leap : Bool, ∀ n : Fin 365, daysBeforeMonth leap (monthOf leap n) ≤ n.val ∧
      n.val - daysBeforeMonth leap (monthOf leap n) < 31 ∧ monthOf leap n ≤ 12 := by
    decide +kernel
  exact hall leap ⟨n, h⟩

/-- The last day of a leap year is the 366th. -/
theorem dayNumber_last {year : Nat} (h : isLeap year = true) :
    dayNumber ⟨year, 12, 31⟩ = daysBeforeYear year + 365 := by
  simp only [dayNumber, h]
  rfl

/-- A day is the day of its date. -/
theorem dayNumber_dateOf (n : Nat) : dayNumber (dateOf n) = n := by
  unfold dateOf
  simp only
  split
  · rename_i hlast
    have hyear : ∃ b c, n / 146097 * 400 + n % 146097 / 36524 * 100 +
        n % 146097 % 36524 / 1461 * 4 + n % 146097 % 36524 % 1461 / 365 + 1 - 1 =
          n / 146097 * 400 + b * 100 + c * 4 + 3 + 1 ∧ b < 4 ∧ c < 25 ∧ (c < 24 ∨ b = 3) ∧
        n = n / 146097 * 146097 + b * 36524 + c * 1461 + 3 * 365 + 365 := by
      rcases hlast with hlast | hlast
      · exact ⟨n % 146097 / 36524, n % 146097 % 36524 / 1461, by omega, by omega, by omega,
          by omega, by omega⟩
      · exact ⟨3, 24, by omega, by omega, by omega, by omega, by omega⟩
    obtain ⟨b, c, hy, hb, hc, hbc, hn⟩ := hyear
    have hleap : isLeap (n / 146097 * 400 + b * 100 + c * 4 + 3 + 1) = true := by
      simp only [isLeap, decide_eq_true_eq]
      omega
    rw [hy, dayNumber_last hleap, daysBeforeYear_succ _ _ _ _ hb hc (by omega)]
    omega
  · rename_i hlast
    rw [not_or] at hlast
    have hrest := monthOf_spec (isLeap (n / 146097 * 400 + n % 146097 / 36524 * 100 +
      n % 146097 % 36524 / 1461 * 4 + n % 146097 % 36524 % 1461 / 365 + 1))
      (n := n % 146097 % 36524 % 1461 % 365) (by omega)
    simp only [dayNumber]
    rw [daysBeforeYear_succ _ _ _ _ (by omega) (by omega) (by omega)]
    omega

/-- The fields of a date in the first 9999 years have four digits and two. -/
theorem dateOf_lt {n : Nat} (h : n < 3652059) :
    (dateOf n).year < 10 ^ 4 ∧ (dateOf n).month < 10 ^ 2 ∧ (dateOf n).day < 10 ^ 2 := by
  unfold dateOf
  simp only
  split
  · refine ⟨?_, ?_, ?_⟩ <;> simp only <;> omega
  · have hrest := monthOf_spec (isLeap (n / 146097 * 400 + n % 146097 / 36524 * 100 +
      n % 146097 % 36524 / 1461 * 4 + n % 146097 % 36524 % 1461 / 365 + 1))
      (n := n % 146097 % 36524 % 1461 % 365) (by omega)
    refine ⟨?_, ?_, ?_⟩ <;> simp only <;> omega

end Sediment.Base.Calendar

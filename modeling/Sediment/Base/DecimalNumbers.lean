import Mathlib
import Sediment.Base.Decimals

namespace Sediment.Base.DecimalNumbers
open Decimals

structure Decimal where
  coefficient : Nat
  exponent : Int
  deriving DecidableEq, Repr

namespace Decimal

def value (d : Decimal) : ℚ := d.coefficient * 10 ^ d.exponent

/-- `len(str(coefficient))`. -/
def digits (d : Decimal) : Nat := Nat.log 10 d.coefficient + 1

end Decimal

/-- The precision and the range of exponents of a context. -/
structure Context where
  prec : Nat
  emax : Int
  emin : Int
  prec_pos : 0 < prec
  ordered : emin ≤ emax

namespace Context
variable (c : Context)

def etiny : Int := c.emin - c.prec + 1

def etop : Int := c.emax - c.prec + 1

/-- From here on a number overflows. -/
def limit : ℚ := (10 ^ c.prec - 1 / 2) * 10 ^ c.etop

end Context

/-- `decimal.DefaultContext`, which rounds half to even and traps an overflow. -/
def defaultContext : Context where
  prec := 28
  emax := 999999
  emin := -999999
  prec_pos := by decide
  ordered := by decide

def roundHalfEven (n m : Nat) : Nat :=
  if 2 * (n % m) < m ∨ (2 * (n % m) = m ∧ n / m % 2 = 0) then n / m else n / m + 1

/-- The least exponent that a number keeps in the context. -/
def expMin (c : Context) (d : Decimal) : Int := max (d.digits + d.exponent - c.prec) c.etiny

/-- The number rounded into the context; `none` stands for `decimal.Overflow`. -/
def fix (c : Context) (d : Decimal) : Option Decimal :=
  if d.coefficient = 0 then some d
  else if c.etop < d.digits + d.exponent - c.prec then none
  else if d.exponent < expMin c d then
    let coefficient := roundHalfEven d.coefficient (10 ^ (expMin c d - d.exponent).toNat)
    if 10 ^ c.prec ≤ coefficient then
      if c.etop < expMin c d + 1 then none else some ⟨coefficient / 10, expMin c d + 1⟩
    else some ⟨coefficient, expMin c d⟩
  else some d

def stripZeros (emax : Int) : Nat → Decimal → Decimal
  | 0, d => d
  | fuel + 1, d =>
    if d.coefficient % 10 = 0 ∧ d.exponent < emax then
      stripZeros emax fuel ⟨d.coefficient / 10, d.exponent + 1⟩
    else d

/-- `Decimal.normalize`. -/
def normalize (c : Context) (d : Decimal) : Option Decimal := do
  let dup ← fix c d
  if dup.coefficient = 0 then some ⟨0, 0⟩
  else some (stripZeros c.emax dup.digits dup)

/-- A number that the context holds without rounding. -/
def Representable (c : Context) (x : ℚ) : Prop :=
  ∃ n : Nat, ∃ e : Int, x = n * 10 ^ e ∧ n < 10 ^ c.prec ∧ c.etiny ≤ e ∧ e ≤ c.etop

variable {c : Context} {d d' : Decimal}

theorem ten_zpow_pos (e : Int) : (0 : ℚ) < 10 ^ e := by positivity

theorem ten_zpow_le {a b : Int} (h : a ≤ b) : (10 : ℚ) ^ a ≤ 10 ^ b :=
  zpow_le_zpow_right₀ (by norm_num) h

theorem ten_zpow_lt {a b : Int} (h : (10 : ℚ) ^ a < 10 ^ b) : a < b :=
  (zpow_lt_zpow_iff_right₀ (by norm_num)).mp h

/-- The order of magnitude of a number, by its digits. -/
theorem magnitude (h : d.coefficient ≠ 0) :
    (10 : ℚ) ^ (d.digits + d.exponent - 1) ≤ d.value ∧
      d.value + 10 ^ d.exponent ≤ 10 ^ (d.digits + d.exponent) := by
  have hlow : 10 ^ Nat.log 10 d.coefficient ≤ d.coefficient := Nat.pow_log_le_self 10 h
  have hhigh : d.coefficient + 1 ≤ 10 ^ d.digits :=
    Nat.lt_pow_succ_log_self (by norm_num) d.coefficient
  have hpos := ten_zpow_pos d.exponent
  constructor
  · have hexp : (d.digits + d.exponent - 1 : Int) =
        (Nat.log 10 d.coefficient : Int) + d.exponent := by
      rw [Decimal.digits]
      push_cast
      ring
    rw [hexp, zpow_add₀ (by norm_num), zpow_natCast, Decimal.value]
    apply mul_le_mul_of_nonneg_right _ hpos.le
    exact_mod_cast hlow
  · rw [zpow_add₀ (by norm_num), zpow_natCast, Decimal.value]
    calc (d.coefficient : ℚ) * 10 ^ d.exponent + 10 ^ d.exponent
        = ((d.coefficient + 1 : Nat) : ℚ) * 10 ^ d.exponent := by push_cast; ring
      _ ≤ 10 ^ d.digits * 10 ^ d.exponent := by
        apply mul_le_mul_of_nonneg_right _ hpos.le
        exact_mod_cast hhigh

theorem value_lt (h : d.coefficient ≠ 0) : d.value < 10 ^ (d.digits + d.exponent) := by
  have hm := (magnitude h).2
  have hpos := ten_zpow_pos d.exponent
  linarith

theorem limit_lt (c : Context) : c.limit < 10 ^ (c.prec + c.etop) := by
  have hpos := ten_zpow_pos c.etop
  rw [Context.limit, zpow_add₀ (by norm_num), zpow_natCast]
  nlinarith

theorem le_limit (c : Context) : (10 : ℚ) ^ (c.prec + c.etop - 1) < c.limit := by
  have hpos := ten_zpow_pos c.etop
  have hprec := c.prec_pos
  have hsplit : (c.prec + c.etop - 1 : Int) = ((c.prec - 1 : Nat) : Int) + c.etop := by omega
  have hten : (10 : ℚ) ^ c.prec = 10 * 10 ^ (c.prec - 1) := by
    rw [← pow_succ', Nat.sub_add_cancel hprec]
  have hone : (1 : ℚ) ≤ 10 ^ (c.prec - 1) := one_le_pow₀ (by norm_num)
  rw [Context.limit, hsplit, zpow_add₀ (by norm_num), zpow_natCast, hten]
  apply mul_lt_mul_of_pos_right _ hpos
  linarith

theorem Representable.lt_limit {x : ℚ} (h : Representable c x) : x < c.limit := by
  obtain ⟨n, e, rfl, hn, -, htop⟩ := h
  have hcast : (n : ℚ) + 1 ≤ 10 ^ c.prec := by exact_mod_cast hn
  calc (n : ℚ) * 10 ^ e ≤ n * 10 ^ c.etop :=
        mul_le_mul_of_nonneg_left (ten_zpow_le htop) n.cast_nonneg
    _ < c.limit := mul_lt_mul_of_pos_right (by linarith) (ten_zpow_pos _)

theorem etiny_le_etop (c : Context) : c.etiny ≤ c.etop := by
  have := c.ordered
  unfold Context.etiny Context.etop
  omega

theorem expMin_le (h : ¬c.etop < d.digits + d.exponent - c.prec) : expMin c d ≤ c.etop :=
  max_le (not_lt.mp h) (etiny_le_etop c)

/-- Division by a power of ten that rounds, and what it leaves. -/
theorem value_shift (h : d.exponent ≤ expMin c d) :
    d.value * 10 ^ (expMin c d - d.exponent).toNat = d.coefficient * 10 ^ expMin c d := by
  have hexp : expMin c d = d.exponent + ((expMin c d - d.exponent).toNat : Int) := by omega
  rw [Decimal.value]
  conv_rhs => rw [hexp, zpow_add₀ (by norm_num), zpow_natCast]
  ring

theorem roundHalfEven_of_dvd {n m : Nat} (hm : 0 < m) (h : m ∣ n) : roundHalfEven n m * m = n := by
  unfold roundHalfEven
  rw [Nat.mod_eq_zero_of_dvd h, if_pos (Or.inl (by simpa using hm))]
  exact Nat.div_mul_cancel h

/-- A quotient rounds up to an even bound exactly from the half below it on. -/
theorem le_roundHalfEven_iff {n m b : Nat} (hm : 0 < m) (hb : b % 2 = 0) (hpos : 0 < b) :
    b ≤ roundHalfEven n m ↔ 2 * b * m ≤ 2 * n + m := by
  have hdiv := Nat.div_add_mod n m
  have hmod := Nat.mod_lt n hm
  generalize hq : n / m = q at hdiv
  generalize hr : n % m = r at hdiv hmod
  have hn : n = m * q + r := hdiv.symm
  have hmul : ∀ x y : Nat, x + 1 ≤ y → m * x + m ≤ m * y := by
    intro x y hxy
    calc m * x + m = m * (x + 1) := by ring
      _ ≤ m * y := Nat.mul_le_mul_left m hxy
  have hval : 2 * b * m = m * b + m * b := by ring
  unfold roundHalfEven
  rw [hq, hr, hval, hn]
  rcases lt_trichotomy b (q + 1) with hlt | heq | hgt
  · have hle := Nat.mul_le_mul_left m (Nat.le_of_lt_succ hlt)
    have hbq : b ≤ if 2 * r < m ∨ 2 * r = m ∧ q % 2 = 0 then q else q + 1 := by
      split_ifs <;> omega
    exact iff_of_true hbq (by omega)
  · subst heq
    have hnext : m * (q + 1) = m * q + m := by ring
    rw [hnext]
    split_ifs with hc
    · apply iff_of_false
      · omega
      · omega
    · apply iff_of_true (le_refl _)
      omega
  · have hle := hmul (q + 1) b hgt
    have hnext : m * (q + 1) = m * q + m := by ring
    rw [hnext] at hle
    have hbq : ¬b ≤ if 2 * r < m ∨ 2 * r = m ∧ q % 2 = 0 then q else q + 1 := by
      split_ifs <;> omega
    exact iff_of_false hbq (by omega)

theorem pow_prec_even (c : Context) : 10 ^ c.prec % 2 = 0 := by
  have hten : 10 % 2 = 0 := rfl
  rw [Nat.pow_mod, hten, Nat.zero_pow c.prec_pos]

/-- The unit of the last place that a number keeps. -/
def unit (c : Context) (d : Decimal) : Nat := 10 ^ (expMin c d - d.exponent).toNat

theorem unit_pos (c : Context) (d : Decimal) : 0 < unit c d := Nat.pos_of_ne_zero (by simp [unit])

/-- The coefficient that rounding leaves, before it is cut to the precision. -/
def rounded (c : Context) (d : Decimal) : Nat := roundHalfEven d.coefficient (unit c d)

theorem value_eq_shift (h : d.exponent ≤ expMin c d) :
    d.value = (d.coefficient : ℚ) / unit c d * 10 ^ expMin c d := by
  have hunit : (0 : ℚ) < unit c d := by exact_mod_cast unit_pos c d
  have hs := value_shift h
  rw [div_mul_eq_mul_div, eq_div_iff hunit.ne', ← hs]
  unfold unit
  push_cast
  ring

theorem rounded_le (h : d.coefficient ≠ 0) (hle : d.exponent ≤ expMin c d) :
    rounded c d ≤ 10 ^ c.prec := by
  have hunit := unit_pos c d
  have hexp : d.digits + d.exponent ≤ c.prec + expMin c d := by
    have := le_max_left (d.digits + d.exponent - c.prec) c.etiny
    unfold expMin
    omega
  have hlt : d.value < 10 ^ (c.prec + expMin c d) := (value_lt h).trans_le (ten_zpow_le hexp)
  rw [value_eq_shift hle, zpow_add₀ (by norm_num), zpow_natCast] at hlt
  have hquot := lt_of_mul_lt_mul_right hlt (ten_zpow_pos _).le
  rw [div_lt_iff₀ (by exact_mod_cast hunit)] at hquot
  have hnat : d.coefficient < 10 ^ c.prec * unit c d := by exact_mod_cast hquot
  apply le_of_not_gt
  intro hgt
  have hodd : 10 ^ c.prec + 2 ≤ rounded c d ∨ rounded c d = 10 ^ c.prec + 1 := by omega
  have hdiv : d.coefficient / unit c d < 10 ^ c.prec := (Nat.div_lt_iff_lt_mul hunit).mpr hnat
  have hupper : rounded c d ≤ d.coefficient / unit c d + 1 := by
    unfold rounded roundHalfEven
    split_ifs <;> omega
  omega

theorem full_iff (h : d.exponent ≤ expMin c d) :
    10 ^ c.prec ≤ rounded c d ↔ (10 ^ c.prec - 1 / 2 : ℚ) * 10 ^ expMin c d ≤ d.value := by
  have hunit : (0 : ℚ) < unit c d := by exact_mod_cast unit_pos c d
  rw [value_eq_shift h, mul_le_mul_iff_left₀ (ten_zpow_pos _), le_div_iff₀ hunit]
  unfold rounded
  rw [le_roundHalfEven_iff (unit_pos c d) (pow_prec_even c) (by positivity),
    ← Nat.cast_le (α := ℚ)]
  push_cast
  constructor
  · intro hle
    linarith
  · intro hle
    linarith

/-- What rounding into a context gives. -/
theorem fix_cases (h : d.coefficient ≠ 0) :
    (c.limit ≤ d.value ∧ fix c d = none) ∨
    (d.value < c.limit ∧ expMin c d ≤ d.exponent ∧ expMin c d ≤ c.etop ∧ fix c d = some d) ∨
    (d.value < c.limit ∧ d.exponent < expMin c d ∧ expMin c d ≤ c.etop ∧
      ∃ out, fix c d = some out ∧ out.value = rounded c d * 10 ^ expMin c d ∧
        (rounded c d < 10 ^ c.prec ∨ expMin c d + 1 ≤ c.etop)) := by
  unfold fix
  rw [if_neg h]
  by_cases htop : c.etop < d.digits + d.exponent - c.prec
  · left
    rw [if_pos htop]
    refine ⟨?_, rfl⟩
    have hexp : (c.prec + c.etop : Int) ≤ d.digits + d.exponent - 1 := by omega
    exact ((limit_lt c).trans_le (ten_zpow_le hexp)).le.trans (magnitude h).1
  have hmin := expMin_le htop
  rw [if_neg htop]
  by_cases hexp : d.exponent < expMin c d
  · rw [if_pos hexp]
    change _ ∨ _ ∨ _
    have hdef : roundHalfEven d.coefficient (10 ^ (expMin c d - d.exponent).toNat) =
      rounded c d := rfl
    simp only [hdef]
    have hfull := full_iff (c := c) hexp.le
    by_cases hcut : 10 ^ c.prec ≤ rounded c d
    · have hround : rounded c d = 10 ^ c.prec := le_antisymm (rounded_le h hexp.le) hcut
      rw [if_pos hcut]
      by_cases hover : c.etop < expMin c d + 1
      · left
        have heq : expMin c d = c.etop := by omega
        rw [if_pos hover]
        refine ⟨?_, rfl⟩
        have hle := hfull.mp hcut
        rw [heq] at hle
        exact hle
      · right
        right
        rw [if_neg hover]
        have hvalue : d.value < c.limit := by
          have hbound : (d.digits + d.exponent : Int) ≤ c.prec + c.etop - 1 := by
            have := le_max_left (d.digits + d.exponent - c.prec) c.etiny
            unfold expMin at hover
            omega
          exact (value_lt h).trans_le ((ten_zpow_le hbound).trans (le_limit c).le)
        refine ⟨hvalue, hexp, hmin, _, rfl, ?_, Or.inr (not_lt.mp hover)⟩
        have hten : rounded c d / 10 * 10 = rounded c d := by
          rw [hround]
          exact Nat.div_mul_cancel (dvd_pow_self 10 c.prec_pos.ne')
        rw [Decimal.value, zpow_add_one₀ (by norm_num)]
        have hcast : ((rounded c d / 10 : Nat) : ℚ) * 10 = rounded c d := by exact_mod_cast hten
        linear_combination (10 : ℚ) ^ expMin c d * hcast
    · right
      right
      rw [if_neg hcut]
      have hvalue : d.value < c.limit := by
        have hlt := not_le.mp (mt hfull.mpr hcut)
        have hpos : (0 : ℚ) ≤ 10 ^ c.prec - 1 / 2 := by
          have hone : (1 : ℚ) ≤ 10 ^ c.prec := one_le_pow₀ (by norm_num)
          linarith
        exact hlt.trans_le (mul_le_mul_of_nonneg_left (ten_zpow_le hmin) hpos)
      exact ⟨hvalue, hexp, hmin, _, rfl, rfl, Or.inl (not_le.mp hcut)⟩
  · right
    left
    rw [if_neg hexp]
    have hle := not_lt.mp hexp
    refine ⟨?_, hle, hmin, rfl⟩
    have hm := (magnitude h).2
    have hpos := ten_zpow_pos d.exponent
    by_cases hsmall : (d.digits + d.exponent : Int) ≤ c.prec + c.etop - 1
    · exact (value_lt h).trans_le ((ten_zpow_le hsmall).trans (le_limit c).le)
    · have hlen : (d.digits + d.exponent : Int) = c.prec + c.etop := by omega
      have hlow : c.etop ≤ d.exponent := by
        have := le_max_left (d.digits + d.exponent - c.prec) c.etiny
        unfold expMin at hle
        omega
      rw [hlen, zpow_add₀ (by norm_num), zpow_natCast] at hm
      have hstep := ten_zpow_le hlow
      have hposTop := ten_zpow_pos c.etop
      unfold Context.limit
      linarith

theorem fix_eq_none_iff (h : d.coefficient ≠ 0) : fix c d = none ↔ c.limit ≤ d.value := by
  rcases fix_cases (c := c) h with ⟨hle, hnone⟩ | ⟨hlt, -, -, hsome⟩ | ⟨hlt, -, -, out, hsome, -⟩
  · exact iff_of_true hnone hle
  · exact iff_of_false (by rw [hsome]; exact nofun) hlt.not_ge
  · exact iff_of_false (by rw [hsome]; exact nofun) hlt.not_ge

/-- A number that keeps its digits is representable. -/
theorem representable_kept (hle : expMin c d ≤ d.exponent)
    (hmin : expMin c d ≤ c.etop) : Representable c d.value := by
  by_cases htop : d.exponent ≤ c.etop
  · refine ⟨d.coefficient, d.exponent, rfl, ?_, (le_max_right _ _).trans hle, htop⟩
    have hdigits : d.digits ≤ c.prec := by
      have := (le_max_left (d.digits + d.exponent - c.prec) c.etiny).trans hle
      omega
    exact (Nat.lt_pow_succ_log_self (by norm_num) d.coefficient).trans_le
      (Nat.pow_le_pow_right (by norm_num) hdigits)
  · have hgap : d.exponent = c.etop + ((d.exponent - c.etop).toNat : Int) := by omega
    refine ⟨d.coefficient * 10 ^ (d.exponent - c.etop).toNat, c.etop, ?_, ?_,
      etiny_le_etop c, le_refl _⟩
    · rw [Decimal.value]
      conv_lhs => rw [hgap, zpow_add₀ (by norm_num), zpow_natCast]
      push_cast
      ring
    · have hlen : d.digits + (d.exponent - c.etop).toNat ≤ c.prec := by
        have := le_max_left (d.digits + d.exponent - c.prec) c.etiny
        unfold expMin at hmin
        omega
      calc d.coefficient * 10 ^ (d.exponent - c.etop).toNat
          < 10 ^ d.digits * 10 ^ (d.exponent - c.etop).toNat := by
            apply Nat.mul_lt_mul_of_pos_right _ (by positivity)
            exact Nat.lt_pow_succ_log_self (by norm_num) d.coefficient
        _ = 10 ^ (d.digits + (d.exponent - c.etop).toNat) := (pow_add 10 _ _).symm
        _ ≤ 10 ^ c.prec := Nat.pow_le_pow_right (by norm_num) hlen

theorem representable_rounded (h : d.coefficient ≠ 0) (hexp : d.exponent < expMin c d)
    (hmin : expMin c d ≤ c.etop)
    (hcut : rounded c d < 10 ^ c.prec ∨ expMin c d + 1 ≤ c.etop) :
    Representable c (rounded c d * 10 ^ expMin c d) := by
  have hle := rounded_le h hexp.le
  rcases hle.lt_or_eq with hlt | heq
  · exact ⟨rounded c d, expMin c d, rfl, hlt, le_max_right _ _, hmin⟩
  · have htop := hcut.resolve_left heq.not_lt
    have hten : 10 ^ (c.prec - 1) * 10 = 10 ^ c.prec := by
      rw [← pow_succ, Nat.sub_add_cancel c.prec_pos]
    have hlow := le_max_right (d.digits + d.exponent - c.prec) c.etiny
    refine ⟨10 ^ (c.prec - 1), expMin c d + 1, ?_, ?_, ?_, htop⟩
    · rw [heq, ← hten, zpow_add_one₀ (by norm_num)]
      push_cast
      ring
    · exact Nat.pow_lt_pow_right (by norm_num) (Nat.sub_lt c.prec_pos (by norm_num))
    · unfold expMin
      omega

/-- Rounding keeps the value of the numbers that the context holds, and of no others. -/
theorem fix_value_iff (h : d.coefficient ≠ 0) (hf : fix c d = some d') :
    (d'.value = d.value ↔ Representable c d.value) ∧ Representable c d'.value := by
  rcases fix_cases (c := c) h with ⟨-, hnone⟩ | ⟨-, hle, hmin, hsome⟩ |
      ⟨-, hexp, hmin, out, hsome, hvalue, hcut⟩
  · rw [hnone] at hf
    cases hf
  · rw [hsome] at hf
    cases hf
    have hrep := representable_kept hle hmin
    exact ⟨iff_of_true rfl hrep, hrep⟩
  · rw [hsome] at hf
    cases hf
    have hrep := representable_rounded h hexp hmin hcut
    rw [hvalue]
    refine ⟨⟨fun heq => heq ▸ hrep, ?_⟩, hrep⟩
    rintro ⟨n, e, hne, hn, hlow, -⟩
    have hexpMin : expMin c d ≤ e := by
      apply max_le _ hlow
      have hmag := (magnitude h).1
      have hlt : (n : ℚ) * 10 ^ e < 10 ^ (c.prec + e) := by
        rw [zpow_add₀ (by norm_num), zpow_natCast]
        apply mul_lt_mul_of_pos_right _ (ten_zpow_pos e)
        exact_mod_cast hn
      rw [hne] at hmag
      have := ten_zpow_lt (hmag.trans_lt hlt)
      omega
    have hgap : e = expMin c d + ((e - expMin c d).toNat : Int) := by omega
    have hcoef : (d.coefficient : ℚ) = (n * 10 ^ (e - expMin c d).toNat : Nat) * unit c d := by
      have hunit : (0 : ℚ) < unit c d := by exact_mod_cast unit_pos c d
      have hshift := value_eq_shift hexp.le
      rw [hne] at hshift
      conv_lhs at hshift => rw [hgap, zpow_add₀ (by norm_num), zpow_natCast]
      have hpos := ten_zpow_pos (expMin c d)
      field_simp at hshift
      push_cast
      linarith
    have hnat : d.coefficient = n * 10 ^ (e - expMin c d).toNat * unit c d := by
      exact_mod_cast hcoef
    have hround := roundHalfEven_of_dvd (unit_pos c d) (Dvd.intro_left _ hnat.symm)
    have hcast : (rounded c d : ℚ) * unit c d = d.coefficient := by exact_mod_cast hround
    rw [value_eq_shift hexp.le, ← hcast]
    have hunit : (unit c d : ℚ) ≠ 0 := by exact_mod_cast (unit_pos c d).ne'
    field_simp

theorem stripZeros_value (emax : Int) (fuel : Nat) (d : Decimal) :
    (stripZeros emax fuel d).value = d.value := by
  induction fuel generalizing d with
  | zero => rfl
  | succ fuel ih =>
    unfold stripZeros
    split_ifs with hc
    · have hten : ((d.coefficient / 10 : Nat) : ℚ) * 10 = d.coefficient := by
        exact_mod_cast Nat.div_mul_cancel (Nat.dvd_of_mod_eq_zero hc.1)
      rw [ih, Decimal.value, Decimal.value, zpow_add_one₀ (by norm_num)]
      linear_combination (10 : ℚ) ^ d.exponent * hten
    · rfl

theorem normalize_eq_none_iff (h : d.coefficient ≠ 0) :
    normalize c d = none ↔ c.limit ≤ d.value := by
  rw [← fix_eq_none_iff h]
  unfold normalize
  cases fix c d with
  | none => simp
  | some dup =>
    simp only [Option.bind_eq_bind, Option.bind_some]
    split_ifs <;> simp

/-- Normalizing keeps what rounding gives. -/
theorem normalize_value (hn : normalize c d = some d') :
    ∃ dup, fix c d = some dup ∧ d'.value = dup.value := by
  unfold normalize at hn
  obtain ⟨dup, hdup, hout⟩ := Option.bind_eq_some_iff.mp hn
  refine ⟨dup, hdup, ?_⟩
  split_ifs at hout with hzero
  · cases hout
    simp [Decimal.value, hzero]
  · cases hout
    exact stripZeros_value _ _ _

theorem normalize_value_iff (h : d.coefficient ≠ 0) (hn : normalize c d = some d') :
    (d'.value = d.value ↔ Representable c d.value) ∧ Representable c d'.value := by
  obtain ⟨dup, hdup, hvalue⟩ := normalize_value hn
  rw [hvalue]
  exact fix_value_iff h hdup

theorem stripZeros_ne_zero (emax : Int) (fuel : Nat) (h : d.coefficient ≠ 0) :
    (stripZeros emax fuel d).coefficient ≠ 0 := by
  induction fuel generalizing d with
  | zero => exact h
  | succ fuel ih =>
    unfold stripZeros
    split_ifs with hc
    · apply ih
      intro hzero
      have hten := Nat.div_mul_cancel (Nat.dvd_of_mod_eq_zero hc.1)
      have hnone : d.coefficient / 10 = 0 := hzero
      rw [hnone, Nat.zero_mul] at hten
      exact h hten.symm
    · exact h

theorem normalize_form (hn : normalize c d = some d') : d'.coefficient ≠ 0 ∨ d' = ⟨0, 0⟩ := by
  unfold normalize at hn
  obtain ⟨dup, -, hout⟩ := Option.bind_eq_some_iff.mp hn
  split_ifs at hout with hzero
  · exact Or.inr (Option.some.inj hout).symm
  · left
    rw [← Option.some.inj hout]
    exact stripZeros_ne_zero _ _ hzero

/-- What a text of digits denotes, in any digits of the table. -/
def number (table : DigitTable) (digits : List Char) : Nat :=
  digits.foldl (fun n c => 10 * n + (table.value c).getD 0) 0

/-- `Decimal(whole + "." + fraction)`. -/
def ofParts (table : DigitTable) (whole fraction : List Char) : Decimal :=
  ⟨number table (whole ++ fraction), -fraction.length⟩

/-- What the digits behind the point denote. -/
def fractional (table : DigitTable) (fraction : List Char) : ℚ :=
  fraction.foldr (fun c (tail : ℚ) => (((table.value c).getD 0 : Nat) + tail) / 10) 0

/-- The number that a whole part and the digits behind the point denote. -/
def denote (table : DigitTable) (whole fraction : List Char) : ℚ :=
  number table whole + fractional table fraction

/-- The digits before and behind the point of `format(value, "f")`. -/
def fixedParts (d : Decimal) : List Char × List Char :=
  let digits := Nat.toDigits 10 d.coefficient
  if 0 ≤ d.exponent then (digits ++ List.replicate d.exponent.toNat '0', [])
  else
    let places := (-d.exponent).toNat
    let padded := List.replicate (places + 1 - digits.length) '0' ++ digits
    padded.splitAt (padded.length - places)

def fixedText (d : Decimal) : List Char :=
  if (fixedParts d).2 = [] then (fixedParts d).1
  else (fixedParts d).1 ++ '.' :: (fixedParts d).2

theorem foldl_fraction (table : DigitTable) (fraction : List Char) (n : Nat) :
    ((fraction.foldl (fun n c => 10 * n + (table.value c).getD 0) n : Nat) : ℚ) =
      (n + fractional table fraction) * 10 ^ fraction.length := by
  induction fraction generalizing n with
  | nil => simp [fractional]
  | cons c fraction ih =>
    have hcons : fractional table (c :: fraction) =
        (((table.value c).getD 0 : Nat) + fractional table fraction) / 10 := rfl
    rw [List.foldl_cons, ih, hcons, List.length_cons]
    push_cast
    ring

/-- A decimal text denotes the sum of its digits, each at its place. -/
theorem ofParts_value (table : DigitTable) (whole fraction : List Char) :
    (ofParts table whole fraction).value = denote table whole fraction := by
  have hsplit : number table (whole ++ fraction) =
      fraction.foldl (fun n c => 10 * n + (table.value c).getD 0) (number table whole) := by
    unfold number
    rw [List.foldl_append]
  unfold Decimal.value ofParts denote
  dsimp only
  rw [hsplit, foldl_fraction, zpow_neg, zpow_natCast]
  have hne : (10 : ℚ) ^ fraction.length ≠ 0 := by positivity
  field_simp

/-- A text of digits that is a numeral without leading zeros. -/
def Numeral (whole : List Char) : Prop :=
  whole = ['0'] ∨ ∃ c rest, whole = c :: rest ∧ c.isDigit = true ∧ c ≠ '0'

theorem ofDigitChars_lt {digits : List Char} (h : ∀ c ∈ digits, c.isDigit = true) (n : Nat) :
    Nat.ofDigitChars 10 digits n < 10 ^ digits.length * (n + 1) := by
  induction digits generalizing n with
  | nil => simp
  | cons c digits ih =>
    obtain ⟨hc, hrest⟩ := List.forall_mem_cons.mp h
    have hnine : c.toNat - '0'.toNat ≤ 9 := by
      simp only [Char.isDigit, Bool.and_eq_true, decide_eq_true_eq] at hc
      have hle : c.toNat ≤ '9'.toNat := hc.2
      change c.toNat ≤ 57 at hle
      change c.toNat - 48 ≤ 9
      omega
    rw [Nat.ofDigitChars_cons]
    calc Nat.ofDigitChars 10 digits (10 * n + (c.toNat - '0'.toNat))
        < 10 ^ digits.length * (10 * n + (c.toNat - '0'.toNat) + 1) := ih hrest _
      _ ≤ 10 ^ digits.length * (10 * (n + 1)) := Nat.mul_le_mul_left _ (by omega)
      _ = 10 ^ (c :: digits).length * (n + 1) := by
        rw [List.length_cons, pow_succ]
        ring

theorem digits_isDigit {n : Nat} : ∀ c ∈ Nat.toDigits 10 n, c.isDigit = true := fun _ hc =>
  Nat.isDigit_of_mem_toDigits (by decide) (by decide) hc

/-- The digits of a number do not begin with a zero. -/
theorem toDigits_head {n : Nat} (h : n ≠ 0) :
    ∃ c rest, Nat.toDigits 10 n = c :: rest ∧ c.isDigit = true ∧ c ≠ '0' := by
  obtain ⟨c, rest, hd⟩ := List.exists_cons_of_ne_nil (Nat.toDigits_ne_nil (n := n) (b := 10))
  have hdigits := digits_isDigit (n := n)
  rw [hd] at hdigits
  refine ⟨c, rest, hd, hdigits c (by simp), ?_⟩
  rintro rfl
  have hvalue := Nat.ofDigitChars_ten_toDigits (n := n)
  rw [hd, Nat.ofDigitChars_cons] at hvalue
  have hlt := ofDigitChars_lt (fun c hc => hdigits c (List.mem_cons_of_mem _ hc)) 0
  simp only [Nat.mul_zero, Nat.sub_self, Nat.add_zero] at hvalue
  rw [hvalue] at hlt
  cases hrest : rest with
  | nil =>
    rw [hrest] at hlt
    simp at hlt
    exact h hlt
  | cons d tail =>
    have hlen : (Nat.toDigits 10 n).length ≤ rest.length := by
      apply (Nat.length_toDigits_le_iff (by decide) (by rw [hrest]; simp)).mpr
      simpa using hlt
    rw [hd, List.length_cons] at hlen
    omega

theorem number_ascii (table : DigitTable) {digits : List Char}
    (h : ∀ c ∈ digits, c.isDigit = true) : number table digits = Nat.ofDigitChars 10 digits 0 :=
  table.foldl_ascii h 0

/-- What `format(value, "f")` writes before and behind the point. -/
structure Spelled (table : DigitTable) (d : Decimal) (whole fraction : List Char) : Prop where
  numeral : Numeral whole
  whole_digits : ∀ c ∈ whole, c.isDigit = true
  fraction_digits : ∀ c ∈ fraction, c.isDigit = true
  value : (ofParts table whole fraction).value = d.value

theorem replicate_digits {n : Nat} : ∀ c ∈ List.replicate n '0', c.isDigit = true := by
  intro c hc
  rw [List.eq_of_mem_replicate hc]
  rfl

theorem numeral_append {digits zeros : List Char}
    (h : ∃ c rest, digits = c :: rest ∧ c.isDigit = true ∧ c ≠ '0') :
    Numeral (digits ++ zeros) := by
  obtain ⟨c, rest, rfl, hc, hne⟩ := h
  exact Or.inr ⟨c, rest ++ zeros, rfl, hc, hne⟩

/-- Without places behind the point. -/
theorem spelled_whole (table : DigitTable) (h : d.coefficient ≠ 0) (hexp : 0 ≤ d.exponent) :
    Spelled table d (Nat.toDigits 10 d.coefficient ++ List.replicate d.exponent.toNat '0') [] := by
  have hdigits : ∀ c ∈ Nat.toDigits 10 d.coefficient ++ List.replicate d.exponent.toNat '0',
      c.isDigit = true := by
    intro c hc
    rcases List.mem_append.mp hc with hc | hc
    · exact digits_isDigit c hc
    · exact replicate_digits c hc
  refine ⟨numeral_append (toDigits_head h), hdigits, by simp, ?_⟩
  have hpow : d.exponent = (d.exponent.toNat : Int) := by omega
  unfold Decimal.value ofParts
  rw [List.append_nil, number_ascii table hdigits, Nat.ofDigitChars_append,
    Nat.ofDigitChars_ten_toDigits, Nat.ofDigitChars_replicate_zero]
  conv_rhs => rw [hpow, zpow_natCast]
  push_cast
  simp [mul_comm]

/-- With places behind the point, and zeros before the digits where they are too few. -/
theorem spelled_places (table : DigitTable) (h : d.coefficient ≠ 0) {places : Nat}
    (hplaces : 0 < places) (hexp : d.exponent = -(places : Int)) :
    let digits := Nat.toDigits 10 d.coefficient
    let padded := List.replicate (places + 1 - digits.length) '0' ++ digits
    Spelled table d (padded.take (padded.length - places)) (padded.drop (padded.length - places)) ∧
      padded.drop (padded.length - places) ≠ [] := by
  intro digits padded
  have hdigits : ∀ c ∈ padded, c.isDigit = true := by
    intro c hc
    rcases List.mem_append.mp hc with hc | hc
    · exact replicate_digits c hc
    · exact digits_isDigit c hc
  have hlen : places + 1 ≤ padded.length := by
    simp only [padded, List.length_append, List.length_replicate]
    omega
  have hdrop : (padded.drop (padded.length - places)).length = places := by
    rw [List.length_drop]
    omega
  refine ⟨⟨?_, ?_, ?_, ?_⟩, ?_⟩
  · by_cases hfew : digits.length ≤ places
    · have hone : padded.length - places = 1 := by
        simp only [padded, List.length_append, List.length_replicate]
        omega
      obtain ⟨k, hk⟩ : ∃ k, places + 1 - digits.length = k + 1 := ⟨places - digits.length, by omega⟩
      left
      rw [hone]
      simp only [padded]
      rw [hk, List.replicate_succ]
      rfl
    · have hnone : places + 1 - digits.length = 0 := by omega
      have hpad : padded = digits := by
        simp only [padded]
        rw [hnone]
        rfl
      obtain ⟨c, rest, hd, hc, hne⟩ := toDigits_head h
      obtain ⟨k, hk⟩ : ∃ k, padded.length - places = k + 1 :=
        ⟨padded.length - places - 1, by omega⟩
      right
      refine ⟨c, rest.take k, ?_, hc, hne⟩
      rw [hk, hpad]
      change (Nat.toDigits 10 d.coefficient).take (k + 1) = _
      rw [hd]
      rfl
  · exact fun c hc => hdigits c (List.mem_of_mem_take hc)
  · exact fun c hc => hdigits c (List.mem_of_mem_drop hc)
  · unfold Decimal.value ofParts
    dsimp only
    rw [List.take_append_drop, hdrop, number_ascii table hdigits, hexp, Nat.ofDigitChars_append,
      Nat.ofDigitChars_replicate_zero, Nat.mul_zero, Nat.ofDigitChars_ten_toDigits]
  · intro hnil
    rw [hnil] at hdrop
    simp only [List.length_nil] at hdrop
    omega

/-- The text of a number is read back as its value. -/
theorem spelled_fixedParts (table : DigitTable) (h : d.coefficient ≠ 0 ∨ d = ⟨0, 0⟩) :
    Spelled table d (fixedParts d).1 (fixedParts d).2 := by
  rcases h with h | rfl
  · unfold fixedParts
    dsimp only
    split_ifs with hexp
    · exact spelled_whole table h hexp
    · have hplaces : 0 < (-d.exponent).toNat := by omega
      have hneg : d.exponent = -((-d.exponent).toNat : Int) := by omega
      rw [List.splitAt_eq]
      exact (spelled_places table h hplaces hneg).1
  · have hparts : fixedParts ⟨0, 0⟩ = (['0'], []) := rfl
    have hdigits : ∀ c ∈ ['0'], c.isDigit = true := digits_isDigit (n := 0)
    rw [hparts]
    refine ⟨Or.inl rfl, hdigits, fun c hc => absurd hc List.not_mem_nil, ?_⟩
    have hzero : number table ['0'] = 0 := number_ascii table hdigits
    unfold Decimal.value ofParts
    rw [List.append_nil, hzero]
    simp

end Sediment.Base.DecimalNumbers

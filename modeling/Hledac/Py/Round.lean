import Mathlib.Data.Int.Log
import Hledac.Py.Value

/-!
# Bounds on rounded numbers

Rounding to some decimal places does not pass a number with so many places. A binary floating-point number keeps so many
bits, the first of which is set; rounding to it keeps the order. Numbers too small for a normal exponent do not occur.
-/

namespace Hledac.Py

private theorem exists_rounded (places : Nat) (q : ℚ) :
    ∃ n : ℤ, roundTo places q = n / 10 ^ places ∧ ⌊q * 10 ^ places⌋ ≤ n ∧
      (n = ⌊q * 10 ^ places⌋ ∨ n = ⌊q * 10 ^ places⌋ + 1 ∧ (⌊q * 10 ^ places⌋ : ℚ) < q * 10 ^ places) := by
  refine ⟨_, rfl, ?_⟩
  have hfloor : (q * 10 ^ places).floor = ⌊q * 10 ^ places⌋ := rfl
  simp only [hfloor]
  split_ifs with hlow hhigh heven
  · exact ⟨le_rfl, .inl rfl⟩
  · exact ⟨by omega, .inr ⟨rfl, by linarith⟩⟩
  · exact ⟨le_rfl, .inl rfl⟩
  · exact ⟨by omega, .inr ⟨rfl, by linarith⟩⟩

variable {places : Nat} {n : ℤ} {q : ℚ}

theorem le_roundTo (h : (n : ℚ) / 10 ^ places ≤ q) : (n : ℚ) / 10 ^ places ≤ roundTo places q := by
  have hpos : (0 : ℚ) < 10 ^ places := by positivity
  obtain ⟨m, hm, hfloor, -⟩ := exists_rounded places q
  rw [hm, div_le_div_iff_of_pos_right hpos, Int.cast_le]
  exact (Int.le_floor.2 ((div_le_iff₀ hpos).1 h)).trans hfloor

theorem roundTo_le (h : q ≤ (n : ℚ) / 10 ^ places) : roundTo places q ≤ (n : ℚ) / 10 ^ places := by
  have hpos : (0 : ℚ) < 10 ^ places := by positivity
  have hle : q * 10 ^ places ≤ n := (le_div_iff₀ hpos).1 h
  obtain ⟨m, hm, -, hcases⟩ := exists_rounded places q
  rw [hm, div_le_div_iff_of_pos_right hpos, Int.cast_le]
  cases hcases with
  | inl heq =>
    rw [heq]
    exact Int.cast_le.1 ((Int.floor_le _).trans hle)
  | inr hup =>
    have hlt : (⌊q * 10 ^ places⌋ : ℚ) < n := hup.2.trans_le hle
    rw [hup.1, Int.add_one_le_iff]
    exact_mod_cast hlt

/-! ### Binary floating point -/

theorem roundTo_zero_le {q : ℚ} {n : ℤ} (h : q ≤ n) : roundTo 0 q ≤ n := by
  have hle : roundTo 0 q ≤ (n : ℚ) / 10 ^ 0 := roundTo_le (by simpa using h)
  simpa using hle

theorem le_roundTo_zero {q : ℚ} {n : ℤ} (h : n ≤ q) : n ≤ roundTo 0 q := by
  have hge : (n : ℚ) / 10 ^ 0 ≤ roundTo 0 q := le_roundTo (by simpa using h)
  simpa using hge

theorem roundTo_zero_intCast (n : ℤ) : roundTo 0 (n : ℚ) = n :=
  le_antisymm (roundTo_zero_le le_rfl) (le_roundTo_zero le_rfl)

theorem roundTo_zero_mono {x y : ℚ} (h : x ≤ y) : roundTo 0 x ≤ roundTo 0 y := by
  by_cases hfloor : ⌊x⌋ = ⌊y⌋
  · have hx : x.floor = ⌊y⌋ := hfloor
    have hy : y.floor = ⌊y⌋ := rfl
    simp only [roundTo, pow_zero, mul_one, div_one, hx, hy, Int.cast_le]
    split_ifs <;> first | omega | linarith
  · have hlt : ⌊x⌋ + 1 ≤ ⌊y⌋ := lt_of_le_of_ne (Int.floor_mono h) hfloor
    have hup : roundTo 0 x ≤ ((⌊x⌋ + 1 : ℤ) : ℚ) := roundTo_zero_le (by simpa using (Int.lt_floor_add_one x).le)
    exact hup.trans ((Int.cast_le.2 hlt).trans (le_roundTo_zero (Int.floor_le y)))

/-- The place of the last bit that is kept of a number. -/
def lastBit (bits : Nat) (q : ℚ) : ℤ := Int.log 2 q + 1 - bits

/-- A number that is not negative, rounded half to even to so many bits. -/
def roundBits (bits : Nat) (q : ℚ) : ℚ := roundTo 0 (q / 2 ^ lastBit bits q) * 2 ^ lastBit bits q

section RoundBits

variable {bits : Nat} {x y : ℚ}

@[simp] theorem roundBits_zero (bits : Nat) : roundBits bits 0 = 0 := by
  have hzero := roundTo_zero_intCast 0
  rw [Int.cast_zero] at hzero
  rw [roundBits, zero_div, hzero, zero_mul]

private theorem pow_lastBit_pos (bits : Nat) (q : ℚ) : (0 : ℚ) < 2 ^ lastBit bits q := zpow_pos two_pos _

private theorem pow_eq_mul (n : Nat) (q : ℚ) : (2 : ℚ) ^ (lastBit bits q + n) = (2 ^ n : ℤ) * 2 ^ lastBit bits q := by
  rw [zpow_add₀ two_ne_zero, mul_comm]
  simp

theorem roundBits_le_pow (bits : Nat) (q : ℚ) : roundBits bits q ≤ 2 ^ (Int.log 2 q + 1) := by
  have hlt : q < 2 ^ (Int.log 2 q + 1) := Int.lt_zpow_succ_log_self one_lt_two q
  have hpow : (2 : ℚ) ^ (Int.log 2 q + 1) = (2 ^ bits : ℤ) * 2 ^ lastBit bits q := by
    rw [← pow_eq_mul, lastBit]
    congr 1
    omega
  rw [hpow] at hlt ⊢
  rw [roundBits]
  apply mul_le_mul_of_nonneg_right _ (pow_lastBit_pos bits q).le
  exact roundTo_zero_le ((div_le_iff₀ (pow_lastBit_pos bits q)).2 hlt.le)

theorem pow_le_roundBits (hbits : 0 < bits) (hx : 0 < x) : 2 ^ Int.log 2 x ≤ roundBits bits x := by
  have hle : 2 ^ Int.log 2 x ≤ x := Int.zpow_log_le_self one_lt_two hx
  have hpow : (2 : ℚ) ^ Int.log 2 x = (2 ^ (bits - 1) : ℤ) * 2 ^ lastBit bits x := by
    rw [← pow_eq_mul, lastBit]
    congr 1
    omega
  rw [hpow] at hle ⊢
  rw [roundBits]
  apply mul_le_mul_of_nonneg_right _ (pow_lastBit_pos bits x).le
  exact le_roundTo_zero ((le_div_iff₀ (pow_lastBit_pos bits x)).2 hle)

theorem roundBits_mono (hbits : 0 < bits) (hx : 0 ≤ x) (h : x ≤ y) : roundBits bits x ≤ roundBits bits y := by
  cases hx.lt_or_eq with
  | inr hzero =>
    rw [← hzero, roundBits_zero]
    cases (hx.trans h).lt_or_eq with
    | inl hy => exact (zpow_pos two_pos _).le.trans (pow_le_roundBits hbits hy)
    | inr hy => rw [← hy, roundBits_zero]
  | inl hpos =>
    cases (Int.log_mono_right hpos h).lt_or_eq with
    | inl hlog =>
      -- a power of two stands between them
      calc roundBits bits x ≤ 2 ^ (Int.log 2 x + 1) := roundBits_le_pow bits x
        _ ≤ 2 ^ Int.log 2 y := zpow_le_zpow_right₀ one_le_two hlog
        _ ≤ roundBits bits y := pow_le_roundBits hbits (hpos.trans_le h)
    | inr hlog =>
      rw [roundBits, roundBits, lastBit, lastBit, hlog]
      apply mul_le_mul_of_nonneg_right _ (zpow_pos two_pos _).le
      apply roundTo_zero_mono
      exact div_le_div_of_nonneg_right h (zpow_pos two_pos _).le

theorem roundBits_le_two_mul (hx : 0 < x) : roundBits bits x ≤ 2 * x := by
  have hle : 2 ^ Int.log 2 x ≤ x := Int.zpow_log_le_self one_lt_two hx
  have hround := roundBits_le_pow bits x
  rw [zpow_add_one₀ two_ne_zero] at hround
  linarith

end RoundBits

/-- `float(n)` of an integer that is not negative; `none` where it raises `OverflowError`. -/
def floatOfNat (n : Nat) : Option ℚ := if roundBits 53 n < 2 ^ 1024 then some (roundBits 53 n) else none

/-- The least integer that is rounded up to the first power of two beyond the exponents. -/
def floatLimit : Nat := 2 ^ 1024 - 2 ^ 970

theorem roundBits_lt_iff (n : Nat) : roundBits 53 n < 2 ^ 1024 ↔ n < floatLimit := by
  constructor
  · intro h
    by_contra hnot
    have hle : (floatLimit : ℚ) ≤ n := Nat.cast_le.2 (Nat.le_of_not_lt hnot)
    have hround : roundBits 53 (floatLimit : ℚ) = 2 ^ 1024 := by decide +kernel
    exact absurd (hround ▸ roundBits_mono (by decide) (Nat.cast_nonneg _) hle) (not_le.2 h)
  · intro h
    have hle : (n : ℚ) ≤ ((floatLimit - 1 : ℕ) : ℚ) := Nat.cast_le.2 (Nat.le_sub_one_of_lt h)
    have hround : roundBits 53 ((floatLimit - 1 : ℕ) : ℚ) < 2 ^ 1024 := by decide +kernel
    exact (roundBits_mono (by decide) (Nat.cast_nonneg _) hle).trans_lt hround

theorem isSome_floatOfNat (n : Nat) : (floatOfNat n).isSome = true ↔ n < floatLimit := by
  have hround : (floatOfNat n).isSome = true ↔ roundBits 53 n < 2 ^ 1024 := by rw [floatOfNat, Option.isSome_ite]
  rw [hround, roundBits_lt_iff]

end Hledac.Py

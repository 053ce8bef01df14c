import Mathlib.Data.Nat.Log
import Mathlib.Tactic.Common
import Mathlib.Algebra.Group.Nat.Defs

/-! Natural numbers rounded to the bits of a significand. -/

namespace LotusKit.Lib

/-- Rounded to the nearest number of so many bits, half to even. -/
def roundTo (bits n : Nat) : Nat :=
  if n ≤ 2 ^ bits then n
  else
    let unit := 2 ^ (Nat.log2 n - (bits - 1))
    let q := n / unit
    let rest := n % unit
    if unit < 2 * rest ∨ (2 * rest = unit ∧ q % 2 = 1) then (q + 1) * unit else q * unit

/-- A number of so many bits, with zeros behind them. -/
def Fits (bits n : Nat) : Prop := ∃ m k, m < 2 ^ bits ∧ n = m * 2 ^ k

section Rounding
variable {bits n : Nat}

theorem roundTo_of_le (small : n ≤ 2 ^ bits) : roundTo bits n = n := if_pos small

theorem pos_of_large (large : ¬ n ≤ 2 ^ bits) : 0 < n := Nat.lt_of_le_of_lt (Nat.zero_le _) (Nat.lt_of_not_le large)

theorem unit_le (positive : 0 < n) : 2 ^ (Nat.log2 n - (bits - 1)) ≤ n := by
  calc 2 ^ (Nat.log2 n - (bits - 1)) ≤ 2 ^ Nat.log2 n := Nat.pow_le_pow_right (by decide) (Nat.sub_le _ _)
    _ ≤ n := Nat.log2_self_le (Nat.ne_of_gt positive)

/-- The two numbers it is between. -/
theorem roundTo_eq_or (large : ¬ n ≤ 2 ^ bits) :
    roundTo bits n = n / 2 ^ (Nat.log2 n - (bits - 1)) * 2 ^ (Nat.log2 n - (bits - 1)) ∨
      (roundTo bits n = (n / 2 ^ (Nat.log2 n - (bits - 1)) + 1) * 2 ^ (Nat.log2 n - (bits - 1)) ∧
        n % 2 ^ (Nat.log2 n - (bits - 1)) ≠ 0) := by
  simp only [roundTo, if_neg large]
  split
  case isTrue up =>
    right
    refine ⟨rfl, fun none_ => ?_⟩
    have unit : 0 < 2 ^ (Nat.log2 n - (bits - 1)) := Nat.pow_pos (by decide)
    rw [none_] at up
    omega
  case isFalse => exact .inl rfl

theorem roundTo_pos (positive : 0 < n) : 0 < roundTo bits n := by
  by_cases small : n ≤ 2 ^ bits
  · rwa [roundTo_of_le small]
  · have unit : 0 < 2 ^ (Nat.log2 n - (bits - 1)) := Nat.pow_pos (by decide)
    rcases roundTo_eq_or small with down | ⟨up, -⟩
    · rw [down]
      exact Nat.mul_pos (Nat.div_pos (unit_le positive) unit) unit
    · rw [up]
      exact Nat.mul_pos (Nat.succ_pos _) unit

theorem roundTo_le : roundTo bits n ≤ 2 * n := by
  by_cases small : n ≤ 2 ^ bits
  · rw [roundTo_of_le small]
    omega
  · have unit : 2 ^ (Nat.log2 n - (bits - 1)) ≤ n := unit_le (pos_of_large small)
    have below : n / 2 ^ (Nat.log2 n - (bits - 1)) * 2 ^ (Nat.log2 n - (bits - 1)) ≤ n := Nat.div_mul_le_self n _
    rcases roundTo_eq_or small with down | ⟨up, -⟩
    · omega
    · rw [up, Nat.add_mul, Nat.one_mul]
      omega

/-- What has the bits is not rounded, and nothing else is left as it is. -/
theorem roundTo_eq_self_iff (some_ : 0 < bits) : roundTo bits n = n ↔ Fits bits n := by
  by_cases small : n ≤ 2 ^ bits
  · refine iff_of_true (roundTo_of_le small) ?_
    rcases Nat.lt_or_eq_of_le small with below | rfl
    · exact ⟨n, 0, below, (Nat.mul_one n).symm⟩
    · exact ⟨1, bits, Nat.one_lt_two_pow (by omega), (Nat.one_mul _).symm⟩
  · have positive : n ≠ 0 := Nat.ne_of_gt (pos_of_large small)
    have whole := Nat.div_add_mod n (2 ^ (Nat.log2 n - (bits - 1)))
    have long : bits ≤ Nat.log2 n := by
      rw [Nat.le_log2 positive]
      omega
    constructor
    · intro same
      refine ⟨n / 2 ^ (Nat.log2 n - (bits - 1)), Nat.log2 n - (bits - 1), ?_, ?_⟩
      · rw [Nat.div_lt_iff_lt_mul (Nat.pow_pos (by decide)), ← Nat.pow_add]
        have sum : bits + (Nat.log2 n - (bits - 1)) = Nat.log2 n + 1 := by omega
        rw [sum]
        exact Nat.lt_log2_self
      · rcases roundTo_eq_or small with down | ⟨up, rest⟩
        · rw [← down, same]
        · rw [same, Nat.add_mul, Nat.one_mul] at up
          have less := Nat.mod_lt n (Nat.pow_pos (by decide) : 0 < 2 ^ (Nat.log2 n - (bits - 1)))
          rw [Nat.mul_comm] at up
          omega
    · rintro ⟨m, k, less, rfl⟩
      have short : Nat.log2 (m * 2 ^ k) < bits + k := by
        rw [Nat.log2_lt positive, Nat.pow_add]
        exact Nat.mul_lt_mul_of_pos_right less (Nat.pow_pos (by decide))
      have divides : 2 ^ (Nat.log2 (m * 2 ^ k) - (bits - 1)) ∣ m * 2 ^ k :=
        Nat.dvd_trans (Nat.pow_dvd_pow 2 (by omega)) (Nat.dvd_mul_left _ m)
      rcases roundTo_eq_or small with down | ⟨-, rest⟩
      · rw [down, Nat.div_mul_cancel divides]
      · exact absurd (Nat.mod_eq_zero_of_dvd divides) rest

/-- A sum that wraps around, divided and rounded: the mean is exact just when nothing is lost. -/
theorem roundTo_mean_iff {sum wrap parts : Nat} (some_ : 0 < bits) (positive : 0 < parts) (wraps : 0 < wrap) :
    roundTo bits (sum % wrap / parts) * parts = sum ↔ sum < wrap ∧ parts ∣ sum ∧ Fits bits (sum / parts) := by
  constructor
  · intro same
    have small : sum < wrap := by
      by_contra large
      have rest := Nat.mod_lt sum wraps
      have whole := Nat.div_add_mod sum wrap
      have rounds : wrap ≤ wrap * (sum / wrap) := Nat.le_mul_of_pos_right wrap (Nat.div_pos (by omega) wraps)
      have twice : sum ≤ 2 * (sum % wrap) := by
        calc sum = roundTo bits (sum % wrap / parts) * parts := same.symm
          _ ≤ 2 * (sum % wrap / parts) * parts := Nat.mul_le_mul_right parts roundTo_le
          _ = 2 * (sum % wrap / parts * parts) := Nat.mul_assoc _ _ _
          _ ≤ 2 * (sum % wrap) := Nat.mul_le_mul_left 2 (Nat.div_mul_le_self _ parts)
      omega
    rw [Nat.mod_eq_of_lt small] at same
    refine ⟨small, ⟨_, (Nat.mul_comm _ _).trans same |>.symm⟩, (roundTo_eq_self_iff some_).mp ?_⟩
    exact (Nat.div_eq_of_eq_mul_left positive same.symm).symm
  · rintro ⟨small, divides, fits⟩
    rw [Nat.mod_eq_of_lt small, (roundTo_eq_self_iff some_).mpr fits, Nat.div_mul_cancel divides]

end Rounding

end LotusKit.Lib

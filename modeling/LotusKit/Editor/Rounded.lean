import LotusKit.Editor.Decimal
import LotusKit.Lib.Rounding

/-! Numbers whose sums are rounded to the 53 bits of a double. -/

namespace LotusKit.Editor
open LotusKit.Lib

/-- Rounded to 53 bits, half to even. -/
def roundDouble (n : Nat) : Nat :=
  if n ≤ 2 ^ 53 then n
  else
    let unit := 2 ^ (Nat.log2 n - 52)
    let q := n / unit
    let rest := n % unit
    if unit < 2 * rest ∨ (2 * rest = unit ∧ q % 2 = 1) then (q + 1) * unit else q * unit

theorem roundDouble_eq (n : Nat) : roundDouble n = roundTo 53 n := rfl

theorem roundDouble_of_le {n : Nat} (small : n ≤ 2 ^ 53) : roundDouble n = n := roundTo_of_le small

theorem roundDouble_pos {n : Nat} (positive : 0 < n) : 0 < roundDouble n := by
  rw [roundDouble_eq]
  exact roundTo_pos positive

namespace Shortest

/-- The decimal is the integer `n`. -/
def Is (x : Shortest) (n : Nat) : Prop :=
  (x = zero ∧ n = 0) ∨ ∃ s e, x = finite false s e ∧ 0 ≤ e ∧ n = s * 10 ^ e.toNat

variable {x y : Shortest} {n n' : Nat}

theorem is_ofDecimal (m : Nat) {e : Int} (whole : 0 ≤ e) : (ofDecimal false m e).Is (m * 10 ^ e.toNat) := by
  by_cases none_ : m = 0
  · left
    rw [none_, Nat.zero_mul]
    exact ⟨rfl, rfl⟩
  · obtain ⟨-, k, value, exponent⟩ := stripZeros_spec e (Nat.pos_of_ne_zero none_) (Nat.le_refl m)
    right
    refine ⟨_, _, if_neg none_, ?_, ?_⟩
    · rw [exponent]
      omega
    · have sum : (e + k).toNat = k + e.toNat := by omega
      rw [exponent, sum, Nat.pow_add, ← Nat.mul_assoc, ← value]

theorem Is.add (left : x.Is n) (right : y.Is n') : (x.add y).Is (n + n') := by
  rcases left with ⟨rfl, rfl⟩ | ⟨s, e, rfl, whole, rfl⟩
  · rw [Nat.zero_add]
    rcases right with ⟨rfl, rfl⟩ | ⟨s', e', rfl, whole', rfl⟩
    · exact .inl ⟨rfl, rfl⟩
    · exact .inr ⟨s', e', rfl, whole', rfl⟩
  · rcases right with ⟨rfl, rfl⟩ | ⟨s', e', rfl, whole', rfl⟩
    · exact .inr ⟨s, e, rfl, whole, rfl⟩
    · have sum : scaled false s (e - min e e').toNat + scaled false s' (e' - min e e').toNat =
          ((s * 10 ^ (e - min e e').toNat + s' * 10 ^ (e' - min e e').toNat : Nat) : Int) := by
        simp [scaled]
      have unsigned (m : Nat) : decide ((m : Int) < 0) = false := decide_eq_false (by omega)
      have low : (e - min e e').toNat + (min e e').toNat = e.toNat := by omega
      have low' : (e' - min e e').toNat + (min e e').toNat = e'.toNat := by omega
      have value := is_ofDecimal (s * 10 ^ (e - min e e').toNat + s' * 10 ^ (e' - min e e').toNat)
        (show 0 ≤ min e e' by omega)
      rw [Nat.add_mul, Nat.mul_assoc, Nat.mul_assoc, ← Nat.pow_add, ← Nat.pow_add, low, low'] at value
      simp only [Shortest.add, sum, unsigned, Int.natAbs_natCast]
      exact value

/-- Integers are rounded to 53 bits. -/
def round : Shortest → Shortest
  | finite negative s e =>
    if 0 ≤ e then ofDecimal negative (roundDouble (s * 10 ^ e.toNat)) 0 else finite negative s e
  | x => x

theorem proper_round (proper : x.Proper) : x.round.Proper := by
  unfold round
  split
  · split
    · exact proper_ofDecimal _ _ _
    · exact proper
  · exact proper

theorem Is.round (is : x.Is n) : x.round.Is (roundDouble n) := by
  rcases is with ⟨rfl, rfl⟩ | ⟨s, e, rfl, whole, rfl⟩
  · exact .inl ⟨rfl, rfl⟩
  · have value := is_ofDecimal (roundDouble (s * 10 ^ e.toNat)) (Int.le_refl 0)
    rw [Int.toNat_zero, Nat.pow_zero, Nat.mul_one] at value
    rwa [Shortest.round, if_pos whole]

end Shortest

/-- The rounded sum of two decimals. -/
def addRounded (x y : decimals.Number) : decimals.Number :=
  ⟨(Shortest.add x.val y.val).round, Shortest.proper_round (Shortest.proper_add x.property y.property)⟩

/-- A sum of positive integers is an integer after rounding. -/
theorem add_whole_rounded (x y : decimals.Number) (s : Nat) (e : Int) (s' : Nat) (e' : Int)
    (left : decimals.shortest x = .finite false s e) (whole : 0 ≤ e)
    (right : decimals.shortest y = .finite false s' e') (whole' : 0 ≤ e') :
    (∃ t d, decimals.shortest (addRounded x y) = .finite false t d ∧ 0 ≤ d) ∨
      decimals.shortest (addRounded x y) = .infinity false := by
  have proper := x.property
  rw [show x.val = _ from left] at proper
  have digits : s % 10 ≠ 0 := proper
  have positive : 0 < s * 10 ^ e.toNat := Nat.mul_pos (by omega) (Nat.pow_pos (by decide))
  have first : x.val.Is (s * 10 ^ e.toNat) := .inr ⟨s, e, left, whole, rfl⟩
  have second : y.val.Is (s' * 10 ^ e'.toNat) := .inr ⟨s', e', right, whole', rfl⟩
  left
  rcases (first.add second).round with ⟨-, none_⟩ | ⟨t, d, value, whole'', -⟩
  · have some_ := roundDouble_pos (Nat.add_pos_left positive (s' * 10 ^ e'.toNat))
    omega
  · exact ⟨t, d, value, whole''⟩

/-- Decimals whose integer sums are rounded as sums of doubles are. -/
def rounded : Numbers where
  __ := decimals
  add := addRounded
  add_whole := add_whole_rounded

end LotusKit.Editor

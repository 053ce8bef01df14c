import Mathlib.Data.Nat.Bitwise
import Mathlib.Algebra.Group.Nat.Defs

/-! A number with a bit for each index that has a property. -/

namespace LotusKit.Lib
variable {p : Nat → Prop} [DecidablePred p] {n x i : Nat}

def bitMask (p : Nat → Prop) [DecidablePred p] (n : Nat) : Nat :=
  (List.range n).foldl (fun out i => out + if p i then 2 ^ i else 0) 0

theorem bitMask_succ : bitMask p (n + 1) = bitMask p n + if p n then 2 ^ n else 0 := by
  rw [bitMask, List.range_succ, List.foldl_append]
  rfl

theorem bitMask_lt : bitMask p n < 2 ^ n := by
  induction n with
  | zero => exact Nat.one_pos
  | succ n ih =>
    rw [bitMask_succ, Nat.pow_succ]
    split
    · omega
    · omega

theorem testBit_bitMask : (bitMask p n).testBit i = decide (i < n ∧ p i) := by
  induction n with
  | zero =>
    rw [decide_eq_false fun inside => Nat.not_lt_zero i inside.1]
    exact Nat.zero_testBit i
  | succ n ih =>
    have small : bitMask p n < 2 ^ n := bitMask_lt
    rw [bitMask_succ]
    by_cases own : p n
    · rw [if_pos own, Nat.add_comm]
      rcases Nat.lt_trichotomy i n with below | rfl | above
      · rw [Nat.testBit_two_pow_add_gt below, ih, decide_eq_decide]
        exact and_congr_left' (iff_of_true below (Nat.lt_succ_of_lt below))
      · rw [Nat.testBit_two_pow_add_eq, Nat.testBit_lt_two_pow small, decide_eq_true ⟨Nat.lt_succ_self i, own⟩]
        rfl
      · have far : 2 ^ n + bitMask p n < 2 ^ i := by
          calc 2 ^ n + bitMask p n < 2 ^ n + 2 ^ n := Nat.add_lt_add_left small _
            _ = 2 ^ (n + 1) := (Nat.pow_succ ..).trans (Nat.mul_two _) |>.symm
            _ ≤ 2 ^ i := Nat.pow_le_pow_right (by decide) above
        rw [Nat.testBit_lt_two_pow far, decide_eq_false fun inside => by omega]
    · rw [if_neg own, Nat.add_zero, ih, decide_eq_decide]
      constructor
      · rintro ⟨below, yes⟩
        exact ⟨Nat.lt_succ_of_lt below, yes⟩
      · rintro ⟨below, yes⟩
        refine ⟨Nat.lt_of_le_of_ne (Nat.le_of_lt_succ below) ?_, yes⟩
        rintro rfl
        exact own yes

/-- All the bits of a mask are in a number when masking it gives the mask. -/
theorem and_bitMask_eq_iff : x &&& bitMask p n = bitMask p n ↔ ∀ i < n, p i → x.testBit i = true := by
  constructor
  · intro same i below own
    have bit := congrArg (Nat.testBit · i) same
    simp only [Nat.testBit_and, testBit_bitMask, decide_eq_true (And.intro below own), Bool.and_true] at bit
    exact bit
  · intro all
    apply Nat.eq_of_testBit_eq
    intro i
    rw [Nat.testBit_and, testBit_bitMask]
    by_cases own : i < n ∧ p i
    · rw [all i own.1 own.2, Bool.true_and]
    · rw [decide_eq_false own, Bool.and_false]

end LotusKit.Lib

import Mathlib.Algebra.Group.Nat.Defs
import Mathlib.Tactic.Common

/-! Numbers printed in hexadecimal digits, filled up with zeros, and read again. -/

namespace LotusKit.Lib.Hex

def digit? (c : Char) : Option Nat :=
  if '0' ≤ c ∧ c ≤ '9' then some (c.toNat - '0'.toNat)
  else if 'a' ≤ c ∧ c ≤ 'f' then some (c.toNat - 'a'.toNat + 10)
  else if 'A' ≤ c ∧ c ≤ 'F' then some (c.toNat - 'A'.toNat + 10)
  else none

/-- The value of digits that follow others. -/
def readFrom (before : Nat) (digits : List Char) : Option Nat :=
  digits.foldlM (fun n c => (digit? c).map fun d => 16 * n + d) before

/-- A literal with the prefix `0x`. -/
def read : List Char → Option Nat
  | '0' :: 'x' :: digits => if digits = [] then none else readFrom 0 digits
  | _ => none

/-- The digits of a number, at least as many as asked for. -/
def padded (width n : Nat) : List Char :=
  List.replicate (width - (Nat.toDigits 16 n).length) '0' ++ Nat.toDigits 16 n

def print (width n : Nat) : List Char := '0' :: 'x' :: padded width n

section Read
variable {before : Nat} {digits more : List Char}

theorem readFrom_append : readFrom before (digits ++ more) = (readFrom before digits).bind (readFrom · more) :=
  List.foldlM_append

theorem digit?_digitChar {d : Nat} (small : d < 16) : digit? d.digitChar = some d := by
  have all : ∀ d < 16, digit? d.digitChar = some d := by decide
  exact all d small

theorem readFrom_digitChar {d : Nat} (small : d < 16) : readFrom before [d.digitChar] = some (16 * before + d) := by
  simp [readFrom, digit?_digitChar small]

theorem readFrom_zeros (n : Nat) : readFrom 0 (List.replicate n '0') = some 0 := by
  induction n with
  | zero => rfl
  | succ n ih =>
    have zero : readFrom 0 ['0'] = some 0 := by decide
    rw [List.replicate_succ, ← List.singleton_append, readFrom_append, zero]
    exact ih

theorem readFrom_toDigits (n : Nat) : readFrom 0 (Nat.toDigits 16 n) = some n := by
  induction n using Nat.strongRecOn with
  | _ n ih =>
    rw [Nat.toDigits_eq_if (by decide)]
    split
    next small => rw [readFrom_digitChar small, Nat.mul_zero, Nat.zero_add]
    next large =>
      rw [readFrom_append, ih (n / 16) (Nat.div_lt_self (by omega) (by decide)), Option.bind_some,
        readFrom_digitChar (Nat.mod_lt n (by decide)), Nat.div_add_mod]

theorem readFrom_padded (width n : Nat) : readFrom 0 (padded width n) = some n := by
  rw [padded, readFrom_append, readFrom_zeros]
  exact readFrom_toDigits n

/-- What is printed is read as it was, however it is filled up. -/
theorem read_print (width n : Nat) : read (print width n) = some n := by
  have some_ : padded width n ≠ [] := List.append_ne_nil_of_right_ne_nil _ Nat.toDigits_ne_nil
  rw [print, read, if_neg some_, readFrom_padded]

theorem padded_inj {width m n : Nat} : padded width m = padded width n ↔ m = n := by
  constructor
  · intro same
    have read := congrArg (readFrom 0) same
    rw [readFrom_padded, readFrom_padded] at read
    exact Option.some.inj read
  · exact congrArg _

/-- A number that fits takes as many digits as are asked for. -/
theorem length_padded {width n : Nat} (some_ : 0 < width) (small : n < 16 ^ width) : (padded width n).length = width := by
  have digits := (Nat.length_toDigits_le_iff (by decide) some_).mpr small
  rw [padded, List.length_append, List.length_replicate, Nat.sub_add_cancel digits]

end Read

end LotusKit.Lib.Hex

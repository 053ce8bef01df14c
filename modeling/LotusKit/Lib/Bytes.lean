import Mathlib.Data.List.Basic
import Mathlib.Algebra.Group.Nat.Defs

/-! Ranges of a list: reading one, and overwriting one in place. -/

namespace LotusKit.Lib.Bytes
variable {α : Type*} {xs ys zs : List α} {i k n m : Nat}

/-- `n` elements from position `i` on. -/
def slice (xs : List α) (i n : Nat) : List α := (xs.drop i).take n

/-- `ys` in the place of what was at position `i`. -/
def overwrite (xs : List α) (i : Nat) (ys : List α) : List α :=
  xs.take i ++ ys ++ xs.drop (i + ys.length)

theorem length_slice (within : i + n ≤ xs.length) : (slice xs i n).length = n := by
  simp only [slice, List.length_take, List.length_drop]
  omega

theorem getElem?_slice (xs : List α) (i n j : Nat) :
    (slice xs i n)[j]? = if j < n then xs[i + j]? else none := by
  simp only [slice, List.getElem?_take, List.getElem?_drop]

theorem length_overwrite (within : i + ys.length ≤ xs.length) :
    (overwrite xs i ys).length = xs.length := by
  simp only [overwrite, List.length_append, List.length_take, List.length_drop]
  omega

theorem getElem?_overwrite (within : i + ys.length ≤ xs.length) (j : Nat) :
    (overwrite xs i ys)[j]? =
      if i ≤ j ∧ j < i + ys.length then ys[j - i]? else xs[j]? := by
  have front : (xs.take i).length = i := by
    rw [List.length_take]
    omega
  rw [overwrite, List.append_assoc]
  rcases Nat.lt_or_ge j i with before | after
  · rw [List.getElem?_append_left (by omega), List.getElem?_take, if_pos before,
      if_neg (by omega)]
  · rw [List.getElem?_append_right (by omega), front]
    rcases Nat.lt_or_ge j (i + ys.length) with inside | behind
    · rw [List.getElem?_append_left (by omega), if_pos ⟨after, inside⟩]
    · rw [List.getElem?_append_right (by omega), List.getElem?_drop, if_neg (by omega)]
      congr 1
      omega

/-- Reading back what was written. -/
theorem slice_overwrite (within : i + ys.length ≤ xs.length) :
    slice (overwrite xs i ys) i ys.length = ys := by
  apply List.ext_getElem?
  intro j
  rw [getElem?_slice, getElem?_overwrite within]
  split
  next inside =>
    rw [if_pos (by omega)]
    congr 1
    omega
  next outside => exact (List.getElem?_eq_none (by omega)).symm

/-- Reading what lies before or behind. -/
theorem slice_overwrite_of_disjoint (within : i + ys.length ≤ xs.length)
    (apart : k + n ≤ i ∨ i + ys.length ≤ k) : slice (overwrite xs i ys) k n = slice xs k n := by
  apply List.ext_getElem?
  intro j
  rw [getElem?_slice, getElem?_slice]
  split
  next inside => rw [getElem?_overwrite within, if_neg (by omega)]
  next => rfl

theorem slice_append_left (fits : i + n ≤ xs.length) : slice (xs ++ ys) i n = slice xs i n := by
  apply List.ext_getElem?
  intro j
  rw [getElem?_slice, getElem?_slice]
  split
  next inside => exact List.getElem?_append_left (by omega)
  next => rfl

theorem slice_append_right (at_ : xs.length ≤ i) :
    slice (xs ++ ys) i n = slice ys (i - xs.length) n := by
  apply List.ext_getElem?
  intro j
  rw [getElem?_slice, getElem?_slice]
  split
  next inside =>
    rw [List.getElem?_append_right (by omega)]
    congr 1
    omega
  next => rfl

theorem slice_all (xs : List α) : slice xs 0 xs.length = xs := by
  rw [slice, List.drop_zero, List.take_length]

/-- A range of a list that is put together from three parts. -/
theorem slice_middle (xs ys zs : List α) : slice (xs ++ ys ++ zs) xs.length ys.length = ys := by
  rw [slice_append_left (Nat.le_of_eq List.length_append.symm), slice_append_right (Nat.le_refl _),
    Nat.sub_self, slice_all]

theorem overwrite_middle {ys' : List α} (same : ys'.length = ys.length) :
    overwrite (xs ++ ys ++ zs) xs.length ys' = xs ++ ys' ++ zs := by
  rw [overwrite, same, ← List.length_append, List.drop_left, List.append_assoc xs ys,
    List.take_left]

section BigEndian

def bigEndian (bytes : List UInt8) : Nat := bytes.foldl (fun n b => n * 0x100 + b.toNat) 0

def toBigEndian : Nat → Nat → List UInt8
  | 0, _ => []
  | width + 1, n => toBigEndian width (n / 0x100) ++ [UInt8.ofNat n]

theorem length_toBigEndian (width n : Nat) : (toBigEndian width n).length = width := by
  induction width generalizing n with
  | zero => rfl
  | succ width ih => rw [toBigEndian, List.length_append, ih, List.length_singleton]

theorem bigEndian_concat (bytes : List UInt8) (b : UInt8) :
    bigEndian (bytes ++ [b]) = bigEndian bytes * 0x100 + b.toNat := by
  rw [bigEndian, List.foldl_append, List.foldl_cons, List.foldl_nil, bigEndian]

theorem bigEndian_toBigEndian {width n : Nat} (fits : n < 0x100 ^ width) :
    bigEndian (toBigEndian width n) = n := by
  induction width generalizing n with
  | zero =>
    have none_ : n = 0 := by omega
    rw [none_]
    rfl
  | succ width ih =>
    rw [Nat.pow_succ] at fits
    rw [toBigEndian, bigEndian_concat, ih (by omega), UInt8.toNat_ofNat']
    omega

end BigEndian

end LotusKit.Lib.Bytes

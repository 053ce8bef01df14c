import Mathlib.Data.List.Rotate

/-! A ring of slots: the newest value takes the place of the oldest one. -/

namespace LotusKit.Lib
variable {α : Type*}

structure RingBuffer (α : Type*) where
  slots : List α
  last : Nat
  inside : last < slots.length

namespace RingBuffer

def push (r : RingBuffer α) (x : α) : RingBuffer α where
  slots := r.slots.set ((r.last + 1) % r.slots.length) x
  last := (r.last + 1) % r.slots.length
  inside := by
    rw [List.length_set]
    exact Nat.mod_lt _ (Nat.zero_lt_of_lt r.inside)

def pushAll (r : RingBuffer α) (xs : List α) : RingBuffer α := xs.foldl push r

/-- The values from the oldest to the newest. -/
def recent (r : RingBuffer α) : List α := r.slots.rotate (r.last + 1)

variable (r : RingBuffer α) (x : α) (xs : List α)

theorem perm_recent : r.recent.Perm r.slots := List.rotate_perm _ _

theorem length_recent : r.recent.length = r.slots.length := List.length_rotate _ _

theorem recent_ne_nil : r.recent ≠ [] := by
  rw [← List.length_pos_iff, length_recent]
  exact Nat.zero_lt_of_lt r.inside

theorem recent_push : (r.push x).recent = r.recent.tail ++ [x] := by
  have next : (r.last + 1) % r.slots.length < r.slots.length := Nat.mod_lt _ (Nat.zero_lt_of_lt r.inside)
  have old : r.recent = r.slots.rotate ((r.last + 1) % r.slots.length) := (List.rotate_mod _ _).symm
  have new : (r.push x).recent =
      (r.slots.set ((r.last + 1) % r.slots.length) x).rotate ((r.last + 1) % r.slots.length + 1) := rfl
  generalize (r.last + 1) % r.slots.length = k at next old new
  have front : (r.slots.take k ++ [x]).length = k + 1 := by
    rw [List.length_append, List.length_take_of_le (Nat.le_of_lt next), List.length_singleton]
  have some_ : r.slots.drop k ≠ [] := List.ne_nil_of_length_pos (by rw [List.length_drop]; omega)
  calc (r.push x).recent
      = (r.slots.take k ++ [x] ++ r.slots.drop (k + 1)).rotate (r.slots.take k ++ [x]).length := by
        rw [new, front, List.set_eq_take_append_cons_drop, if_pos next, List.append_cons]
    _ = r.slots.drop (k + 1) ++ (r.slots.take k ++ [x]) := List.rotate_append_length_eq _ _
    _ = (r.slots.drop k ++ r.slots.take k).tail ++ [x] := by
        rw [List.tail_append_of_ne_nil some_, List.tail_drop, List.append_assoc]
    _ = r.recent.tail ++ [x] := by rw [old, List.rotate_eq_drop_append_take (Nat.le_of_lt next)]

/-- After many values, only the newest ones are left. -/
theorem recent_pushAll : (r.pushAll xs).recent = (r.recent ++ xs).drop xs.length := by
  induction xs generalizing r with
  | nil => exact (List.append_nil _).symm
  | cons x xs ih =>
    rw [pushAll, List.foldl_cons, ← pushAll, ih, recent_push, List.append_assoc, List.singleton_append,
      ← List.tail_append_of_ne_nil r.recent_ne_nil, List.drop_tail]
    rfl

theorem recent_pushAll_of_le (enough : r.slots.length ≤ xs.length) :
    (r.pushAll xs).recent = xs.drop (xs.length - r.slots.length) := by
  rw [recent_pushAll, List.drop_append, length_recent, List.drop_eq_nil_of_le, List.nil_append]
  rwa [length_recent]

end RingBuffer

end LotusKit.Lib

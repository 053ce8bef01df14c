import Mathlib.Data.List.TakeDrop
import Mathlib.Logic.Function.Iterate
import Mathlib.Tactic.Common

/-! Undo and redo: what was there before each change, up to a limit, and what was taken back. -/

namespace LotusKit.Lib
variable {A : Type*}

/-- The newest first, in both directions. -/
structure Trail (A : Type*) where
  past : List A
  present : A
  future : List A

namespace Trail

/-- The oldest is forgotten past the limit. -/
def remember (limit : Nat) (a : A) (past : List A) : List A :=
  if limit < (a :: past).length then (a :: past).dropLast else a :: past

def change (limit : Nat) (t : Trail A) (a : A) : Trail A := ⟨remember limit t.present t.past, a, []⟩

def undo (t : Trail A) : Trail A :=
  match t.past with
  | [] => t
  | a :: past => ⟨past, a, t.present :: t.future⟩

def redo (t : Trail A) : Trail A :=
  match t.future with
  | [] => t
  | a :: future => ⟨t.present :: t.past, a, future⟩

variable {limit k : Nat} {t : Trail A}

theorem map_remember {B : Type*} (f : A → B) (limit : Nat) (a : A) (past : List A) :
    (remember limit a past).map f = remember limit (f a) (past.map f) := by
  have length : (f a :: past.map f).length = (a :: past).length := by
    rw [List.length_cons, List.length_cons, List.length_map]
  unfold remember
  rw [length]
  split
  next => rw [List.map_dropLast, List.map_cons]
  next => rw [List.map_cons]

theorem redo_undo (some_ : t.past ≠ []) : t.undo.redo = t := by
  obtain ⟨past, present, future⟩ := t
  cases past with
  | nil => exact absurd rfl some_
  | cons a past => rfl

theorem present_iterate_undo (within : k ≤ t.past.length) :
    (t.present :: t.past)[k]? = some (undo^[k] t).present := by
  induction k generalizing t with
  | zero => rfl
  | succ k ih =>
    obtain ⟨past, present, future⟩ := t
    cases past with
    | nil => exact absurd within (Nat.not_succ_le_zero k)
    | cons a past =>
      rw [Function.iterate_succ_apply, List.getElem?_cons_succ]
      exact @ih ⟨past, a, present :: future⟩ (Nat.le_of_succ_le_succ within)

theorem past_iterate_undo (k : Nat) (t : Trail A) : (undo^[k] t).past = t.past.drop k := by
  induction k generalizing t with
  | zero => rfl
  | succ k ih =>
    rw [Function.iterate_succ_apply, ih]
    obtain ⟨past, present, future⟩ := t
    cases past with
    | nil => rw [undo, List.drop_nil, List.drop_nil]
    | cons a past => rfl

theorem take_remember (limit : Nat) (a : A) (past : List A) :
    (remember limit a past).take limit = (a :: past).take limit := by
  unfold remember
  split
  next longer =>
    rw [List.dropLast_eq_take, List.take_take, Nat.min_eq_left (by omega)]
  next => rfl

/-- What is remembered of a longer list is the front of it. -/
theorem take_remember_of_take {past all : List A} (a : A) (same : past.take limit = all.take limit) :
    (remember limit a past).take limit = (a :: all).take limit := by
  rw [take_remember]
  cases limit with
  | zero => rfl
  | succ n =>
    rw [List.take_succ_cons, List.take_succ_cons]
    have fewer := congrArg (List.take n) same
    rw [List.take_take, List.take_take, Nat.min_eq_left (Nat.le_succ n)] at fewer
    rw [fewer]

section Front
variable {all older : List A} (same : t.past.take limit = (all ++ older).take limit) (within : k ≤ limit)
  (made : k ≤ all.length)
include same within made

theorem le_length_past : k ≤ t.past.length := by
  have lengths := congrArg List.length same
  rw [List.length_take, List.length_take, List.length_append] at lengths
  omega

/-- Undo goes back over what was before, as far as the limit. -/
theorem iterate_undo_of_take : (t.present :: all)[k]? = some (undo^[k] t).present := by
  rw [← present_iterate_undo (le_length_past same within made)]
  cases k with
  | zero => rfl
  | succ k =>
    have there := congrArg (fun l => l[k]?) same
    simp only [List.getElem?_take, if_pos (Nat.lt_of_succ_le within)] at there
    rw [List.getElem?_cons_succ, List.getElem?_cons_succ, there, List.getElem?_append_left made]

end Front

end Trail

end LotusKit.Lib

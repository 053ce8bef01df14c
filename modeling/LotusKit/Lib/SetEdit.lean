import Mathlib.Data.Set.Basic
import Mathlib.Data.Set.Disjoint
import Mathlib.Order.BooleanAlgebra.Set
import Mathlib.Data.Set.BooleanAlgebra
import Mathlib.Order.CompletePartialOrder

/-! Edits of a set: elements are put in or taken out, one edit after the other. -/

namespace LotusKit.Lib.SetEdit
variable {α : Type*}

structure Edit (α : Type*) where
  elements : Set α
  put : Bool
  /-- The set is emptied before. -/
  fresh : Bool

namespace Edit

def apply (e : Edit α) (s : Set α) : Set α :=
  let base := if e.fresh then ∅ else s
  if e.put then base ∪ e.elements else base \ e.elements

def applyAll (edits : List (Edit α)) (s : Set α) : Set α := edits.foldl (fun s e => e.apply s) s

variable {e e' : Edit α} {edits : List (Edit α)} {s : Set α} {x : α}

theorem mem_apply (within : x ∈ e.elements) : x ∈ e.apply s ↔ e.put = true := by
  unfold apply
  by_cases put : e.put = true
  · simp only [put, if_true, iff_true]
    exact .inr within
  · simp only [put, Bool.false_eq_true, if_false, iff_false]
    exact fun left => left.2 within

theorem mem_apply_other (keeps : e.fresh = false) (other : x ∉ e.elements) : x ∈ e.apply s ↔ x ∈ s := by
  unfold apply
  simp only [keeps, Bool.false_eq_true, if_false]
  split
  · exact or_iff_left other
  · exact and_iff_left other

/-- On an emptied set only the elements of the edit are left. -/
theorem apply_fresh (fresh : e.fresh = true) : e.apply s = if e.put then e.elements else ∅ := by
  unfold apply
  simp only [fresh, if_true]
  split
  · exact Set.empty_union e.elements
  · exact Set.empty_sdiff e.elements

theorem mem_applyAll_other (keeps : ∀ e ∈ edits, e.fresh = false) (other : ∀ e ∈ edits, x ∉ e.elements) :
    x ∈ applyAll edits s ↔ x ∈ s := by
  induction edits generalizing s with
  | nil => exact Iff.rfl
  | cons e edits ih =>
    rw [List.forall_mem_cons] at keeps other
    exact (ih keeps.2 other.2).trans (mem_apply_other keeps.1 other.1)

/-- The last edit of an element counts. -/
theorem mem_applyAll_last {before after : List (Edit α)} (within : x ∈ e.elements)
    (keeps : ∀ e ∈ after, e.fresh = false) (last : ∀ e ∈ after, x ∉ e.elements) :
    x ∈ applyAll (before ++ e :: after) s ↔ e.put = true := by
  unfold applyAll
  rw [List.foldl_append, List.foldl_cons]
  exact (mem_applyAll_other keeps last).trans (mem_apply within)

theorem apply_comm (keeps : e.fresh = false) (keeps' : e'.fresh = false) (apart : Disjoint e.elements e'.elements) :
    e'.apply (e.apply s) = e.apply (e'.apply s) := by
  ext x
  by_cases within : x ∈ e.elements
  · have other : x ∉ e'.elements := Set.disjoint_left.mp apart within
    rw [mem_apply_other keeps' other, mem_apply within, mem_apply within]
  · rw [mem_apply_other keeps within]
    by_cases within' : x ∈ e'.elements
    · rw [mem_apply within', mem_apply within']
    · rw [mem_apply_other keeps' within', mem_apply_other keeps within, mem_apply_other keeps' within']

end Edit

end LotusKit.Lib.SetEdit

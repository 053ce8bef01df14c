import Mathlib.Data.Set.Insert
import Mathlib.Data.List.Nodup

/-! Allocations by identity: what is freed is never handed out again, and a dead one can be
neither read, nor written, nor freed. -/

namespace LotusKit.Lib
variable {Cell : Type*}

structure Heap (Cell : Type*) where
  cells : Nat → Option Cell
  fresh : Nat
  unused : ∀ a, fresh ≤ a → cells a = none

namespace Heap

def empty : Heap Cell := ⟨fun _ => none, 0, fun _ _ => rfl⟩

def alloc (h : Heap Cell) (c : Cell) : Heap Cell where
  cells a := if a = h.fresh then some c else h.cells a
  fresh := h.fresh + 1
  unused a behind := by
    rw [if_neg (by omega)]
    exact h.unused a (by omega)

/-- `none` for a dead allocation. -/
def write (h : Heap Cell) (a : Nat) (c : Cell) : Option (Heap Cell) :=
  if live : (h.cells a).isSome then
    some
      { cells := fun b => if b = a then some c else h.cells b
        fresh := h.fresh
        unused := by
          intro b behind
          have same : b ≠ a := by
            rintro rfl
            rw [h.unused b behind] at live
            cases live
          rw [if_neg same]
          exact h.unused b behind }
  else none

/-- `none` for a dead allocation. -/
def free (h : Heap Cell) (a : Nat) : Option (Heap Cell) :=
  if (h.cells a).isSome then
    some
      { cells := fun b => if b = a then none else h.cells b
        fresh := h.fresh
        unused := by
          intro b behind
          split
          · rfl
          · exact h.unused b behind }
  else none

def live (h : Heap Cell) : Set Nat := {a | (h.cells a).isSome = true}

variable {h h' : Heap Cell} {a b : Nat} {c : Cell}

theorem mem_live_of_cells (there : h.cells a = some c) : a ∈ h.live := by
  rw [live, Set.mem_ofPred_eq, there, Option.isSome_some]

theorem fresh_not_mem_live (behind : h.fresh ≤ a) : a ∉ h.live := by
  rw [live, Set.mem_ofPred_eq, h.unused a behind]
  exact Bool.false_ne_true

theorem lt_fresh (there : a ∈ h.live) : a < h.fresh := by
  by_contra behind
  exact fresh_not_mem_live (by omega) there

@[simp] theorem fresh_alloc : (h.alloc c).fresh = h.fresh + 1 := rfl

@[simp] theorem cells_alloc_self : (h.alloc c).cells h.fresh = some c := if_pos rfl

theorem cells_alloc_other (there : a ∈ h.live) : (h.alloc c).cells a = h.cells a :=
  if_neg (Nat.ne_of_lt (lt_fresh there))

theorem cells_alloc_of_cells {c' : Cell} (there : h.cells a = some c') : (h.alloc c).cells a = some c' :=
  (cells_alloc_other (mem_live_of_cells there)).trans there

theorem live_alloc : (h.alloc c).live = insert h.fresh h.live := by
  ext b
  simp only [live, alloc, Set.mem_ofPred_eq, Set.mem_insert_iff]
  by_cases same : b = h.fresh
  · simp only [same, if_true, Option.isSome_some, true_or]
  · simp only [same, if_false, false_or]

/-- Writing to a live allocation changes only what it holds. -/
theorem write_eq (there : a ∈ h.live) : ∃ h', h.write a c = some h' ∧ h'.cells a = some c ∧
    (∀ b, b ≠ a → h'.cells b = h.cells b) ∧ h'.live = h.live ∧ h'.fresh = h.fresh := by
  refine ⟨_, dif_pos there, if_pos rfl, fun b other => if_neg other, ?_, rfl⟩
  ext b
  simp only [live, Set.mem_ofPred_eq]
  by_cases same : b = a
  · rw [if_pos same, same]
    exact iff_of_true rfl there
  · rw [if_neg same]

theorem free_eq (there : a ∈ h.live) : ∃ h', h.free a = some h' ∧
    (∀ b, b ≠ a → h'.cells b = h.cells b) ∧ h'.live = h.live \ {a} ∧ h'.fresh = h.fresh := by
  refine ⟨_, if_pos there, fun b other => if_neg other, ?_, rfl⟩
  ext b
  simp only [live, Set.mem_ofPred_eq, Set.mem_sdiff, Set.mem_singleton_iff]
  by_cases same : b = a
  · rw [if_pos same]
    exact iff_of_false Bool.false_ne_true fun left => left.2 same
  · rw [if_neg same]
    exact (and_iff_left same).symm

end Heap

end LotusKit.Lib

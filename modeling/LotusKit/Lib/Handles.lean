import LotusKit.Lib.Heap
import Mathlib.Data.Finset.Basic

/-! Handles that are given out and taken back, with a record of everything that is closed. -/

namespace LotusKit.Lib
variable {Cell : Type*}

structure Handles (Cell : Type*) where
  table : Heap Cell
  closed : List Nat

namespace Handles

def give (h : Handles Cell) (c : Cell) : Handles Cell := { h with table := h.table.alloc c }

/-- Closing what is not open only goes on record. -/
def close (h : Handles Cell) (a : Nat) : Handles Cell := ⟨(h.table.free a).getD h.table, h.closed ++ [a]⟩

/-- The open handles are the same as before, and what was closed in between was given out in
between, and closed once. -/
def Settled (h h' : Handles Cell) : Prop :=
  h'.table.live = h.table.live ∧ ∃ own, h'.closed = h.closed ++ own ∧ own.Nodup ∧
    ∀ a ∈ own, h.table.fresh ≤ a ∧ a < h'.table.fresh

/-- The handles that were given out since `h` and are open still. -/
structure Holding (h : Handles Cell) (held : Finset Nat) (h' : Handles Cell) : Prop where
  live : h'.table.live = h.table.live ∪ held
  later : h.table.fresh ≤ h'.table.fresh
  mine : ∀ a ∈ held, h.table.fresh ≤ a
  closed : ∃ own, h'.closed = h.closed ++ own ∧ own.Nodup ∧
    ∀ a ∈ own, a ∉ held ∧ h.table.fresh ≤ a ∧ a < h'.table.fresh

namespace Holding
variable {h h' : Handles Cell} {held : Finset Nat} {a : Nat}

theorem refl (h : Handles Cell) : Holding h ∅ h where
  live := by rw [Finset.coe_empty, Set.union_empty]
  later := le_rfl
  mine _ nothing := absurd nothing (Finset.notMem_empty _)
  closed := ⟨[], (List.append_nil _).symm, List.nodup_nil, fun _ nothing => absurd nothing List.not_mem_nil⟩

theorem mem_live (holding : Holding h held h') (own : a ∈ held) : a ∈ h'.table.live := by
  rw [holding.live]
  exact .inr own

theorem fresh_notMem (holding : Holding h held h') : h'.table.fresh ∉ held := fun own =>
  Heap.fresh_not_mem_live le_rfl (holding.mem_live own)

theorem give (holding : Holding h held h') (c : Cell) :
    Holding h (insert h'.table.fresh held) (h'.give c) where
  live := by
    rw [Handles.give, Heap.live_alloc, holding.live, Finset.coe_insert, Set.union_insert]
  later := holding.later.trans (Nat.le_succ _)
  mine a own := by
    rcases Finset.mem_insert.mp own with rfl | own
    · exact holding.later
    · exact holding.mine a own
  closed := by
    obtain ⟨own, record, once, given⟩ := holding.closed
    refine ⟨own, record, once, fun a inside => ?_⟩
    have ⟨away, front, back⟩ := given a inside
    refine ⟨fun new => ?_, front, Nat.lt_succ_of_lt back⟩
    rcases Finset.mem_insert.mp new with rfl | new
    · exact absurd back (Nat.lt_irrefl _)
    · exact away new

theorem close (holding : Holding h held h') (own : a ∈ held) : Holding h (held.erase a) (h'.close a) := by
  obtain ⟨after, freed, -, live, fresh⟩ := Heap.free_eq (holding.mem_live own)
  have table : (h'.close a).table = after := by rw [Handles.close, freed, Option.getD_some]
  have elsewhere : a ∉ h.table.live := fun there => absurd (Heap.lt_fresh there) (Nat.not_lt.mpr (holding.mine a own))
  constructor
  · rw [table, live, holding.live, Set.union_sdiff_distrib, Set.sdiff_singleton_eq_self elsewhere, Finset.coe_erase]
  · rw [table, fresh]
    exact holding.later
  · exact fun b rest => holding.mine b (Finset.mem_of_mem_erase rest)
  · obtain ⟨before, record, once, given⟩ := holding.closed
    refine ⟨before ++ [a], ?_, ?_, ?_⟩
    · rw [Handles.close, record, List.append_assoc]
    · have new : a ∉ before := fun inside => (given a inside).1 own
      exact List.nodup_append.mpr ⟨once, List.nodup_singleton a, fun b inside c same =>
        fun equal => new (List.mem_singleton.mp same ▸ equal ▸ inside)⟩
    · intro b inside
      rw [table, fresh]
      rcases List.mem_append.mp inside with inside | inside
      · have ⟨away, front, back⟩ := given b inside
        exact ⟨fun rest => away (Finset.mem_of_mem_erase rest), front, back⟩
      · obtain rfl := List.mem_singleton.mp inside
        exact ⟨Finset.notMem_erase b held, holding.mine b own, Heap.lt_fresh (holding.mem_live own)⟩

/-- Settled is who holds nothing. -/
theorem settled_iff (holding : Holding h held h') : Settled h h' ↔ held = ∅ := by
  constructor
  · intro settled
    rw [Finset.eq_empty_iff_forall_notMem]
    intro a own
    have there := holding.mem_live own
    rw [settled.1] at there
    exact absurd (Heap.lt_fresh there) (Nat.not_lt.mpr (holding.mine a own))
  · rintro rfl
    refine ⟨by rw [holding.live, Finset.coe_empty, Set.union_empty], ?_⟩
    obtain ⟨own, record, once, given⟩ := holding.closed
    exact ⟨own, record, once, fun a inside => (given a inside).2⟩

end Holding

end Handles

end LotusKit.Lib

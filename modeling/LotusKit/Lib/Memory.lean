import Mathlib.Data.List.Basic

/-! Memory as a function of the address: blocks of it, and a list of blocks written one
after the other. Nothing keeps a block inside of an allocation. -/

namespace LotusKit.Lib.Memory
variable {α : Type*}

/-- Some data at an address: what is written there, or what is found there. -/
structure Block (α : Type*) where
  addr : Nat
  bytes : List α
  deriving DecidableEq

namespace Block

def end_ (b : Block α) : Nat := b.addr + b.bytes.length

def Covers (b : Block α) (i : Nat) : Prop := b.addr ≤ i ∧ i < b.end_

instance (b : Block α) (i : Nat) : Decidable (b.Covers i) := inferInstanceAs (Decidable (_ ∧ _))

/-- Memory after the block is written. -/
def store (b : Block α) (mem : Nat → α) : Nat → α := fun i =>
  if b.addr ≤ i then b.bytes.getD (i - b.addr) (mem i) else mem i

theorem store_of_not_covers {b : Block α} {i : Nat} (outside : ¬b.Covers i) (mem : Nat → α) :
    b.store mem i = mem i := by
  unfold store
  split
  next behind =>
    have past : b.bytes.length ≤ i - b.addr := by
      unfold Covers end_ at outside
      omega
    rw [List.getD_eq_getElem?_getD, List.getElem?_eq_none past, Option.getD_none]
  next => rfl

theorem store_covered {b : Block α} {j : Nat} (inside : j < b.bytes.length) (mem : Nat → α) :
    b.store mem (b.addr + j) = b.bytes[j] := by
  rw [store, if_pos (Nat.le_add_right _ _), Nat.add_sub_cancel_left, List.getD_eq_getElem?_getD,
    List.getElem?_eq_getElem inside, Option.getD_some]

end Block

/-- What stands in memory from `a` on. -/
def load (mem : Nat → α) (a n : Nat) : List α := (List.range n).map fun j : Nat => mem (a + j)

@[simp] theorem length_load (mem : Nat → α) (a n : Nat) : (load mem a n).length = n := by
  rw [load, List.length_map, List.length_range]

theorem load_congr {mem mem' : Nat → α} {a n : Nat}
    (same : ∀ i, a ≤ i → i < a + n → mem i = mem' i) : load mem a n = load mem' a n := by
  apply List.map_congr_left
  intro j inside
  have bound := List.mem_range.mp inside
  exact same (a + j) (by omega) (by omega)

theorem load_add (mem : Nat → α) (a m n : Nat) :
    load mem a (m + n) = load mem a m ++ load mem (a + m) n := by
  simp only [load, List.range_add, List.map_append, List.map_map, Function.comp_def, Nat.add_assoc]

/-- The block stands in memory. -/
def Holds (mem : Nat → α) (b : Block α) : Prop := load mem b.addr b.bytes.length = b.bytes

theorem Holds.get {mem : Nat → α} {b : Block α} (holds : Holds mem b) {j : Nat}
    (inside : j < b.bytes.length) : mem (b.addr + j) = b.bytes[j] := by
  have read := congrArg (fun l => l[j]?) holds
  simp only [load, List.getElem?_map, List.getElem?_range inside, Option.map_some,
    List.getElem?_eq_getElem inside] at read
  exact Option.some.inj read

theorem holds_store (b : Block α) (mem : Nat → α) : Holds (b.store mem) b := by
  apply List.ext_getElem (length_load _ _ _)
  intro j _ inside
  simp only [load, List.getElem_map, List.getElem_range]
  exact Block.store_covered inside mem

/-- A block that stands in memory up to a position and goes on there stands in it. -/
theorem Holds.append {mem : Nat → α} {a : Nat} {xs ys : List α} (front : Holds mem ⟨a, xs⟩)
    (rest : Holds mem ⟨a + xs.length, ys⟩) : Holds mem ⟨a, xs ++ ys⟩ := by
  unfold Holds at front rest ⊢
  rw [List.length_append, load_add, front, rest]

theorem Holds.front {mem : Nat → α} {a : Nat} {xs ys : List α} (holds : Holds mem ⟨a, xs ++ ys⟩) :
    Holds mem ⟨a, xs⟩ := by
  unfold Holds at holds ⊢
  rw [List.length_append, load_add] at holds
  exact (List.append_inj holds (length_load _ _ _)).1

/-- Addresses counted from another start. -/
theorem Holds.from_ {mem : Nat → α} {a : Nat} {xs : List α} (holds : Holds mem ⟨a, xs⟩) :
    Holds (fun i => mem (a + i)) ⟨0, xs⟩ := by
  unfold Holds at holds ⊢
  rw [← holds, length_load]
  simp only [load, Nat.zero_add]

/-- Memory after the blocks are written in order. -/
def storeAll (blocks : List (Block α)) (mem : Nat → α) : Nat → α :=
  blocks.foldl (fun mem b => b.store mem) mem

theorem storeAll_append (front rest : List (Block α)) (mem : Nat → α) :
    storeAll (front ++ rest) mem = storeAll rest (storeAll front mem) := List.foldl_append

theorem storeAll_of_not_covers {blocks : List (Block α)} {i : Nat}
    (outside : ∀ b ∈ blocks, ¬b.Covers i) (mem : Nat → α) : storeAll blocks mem i = mem i := by
  induction blocks generalizing mem with
  | nil => rfl
  | cons b rest ih =>
    have later := ih (fun c member => outside c (List.mem_cons_of_mem b member)) (b.store mem)
    exact later.trans (Block.store_of_not_covers (outside b List.mem_cons_self) mem)

/-- A block that nothing is written into stays. -/
theorem Holds.storeAll {mem : Nat → α} {b : Block α} (holds : Holds mem b)
    {blocks : List (Block α)} (apart : ∀ c ∈ blocks, ∀ i, c.Covers i → ¬b.Covers i) :
    Holds (storeAll blocks mem) b := by
  have same : load (Memory.storeAll blocks mem) b.addr b.bytes.length =
      load mem b.addr b.bytes.length := by
    apply load_congr
    intro i behind before
    apply storeAll_of_not_covers
    intro c member covers
    exact apart c member i covers ⟨behind, before⟩
  exact same.trans holds

/-- Two blocks side by side, written one after the other. -/
theorem holds_store_store {a : Nat} (xs ys : List α) (mem : Nat → α) :
    Holds (Block.store ⟨a + xs.length, ys⟩ (Block.store ⟨a, xs⟩ mem)) ⟨a, xs ++ ys⟩ := by
  apply Holds.append
  · have front := holds_store ⟨a, xs⟩ mem
    have apart : ∀ c ∈ [Block.mk (a + xs.length) ys], ∀ i, c.Covers i → ¬Block.Covers ⟨a, xs⟩ i := by
      intro c member i covers inFront
      obtain rfl := List.mem_singleton.mp member
      unfold Block.Covers Block.end_ at covers inFront
      simp only at covers inFront
      omega
    exact front.storeAll apart
  · exact holds_store ⟨a + xs.length, ys⟩ _

end LotusKit.Lib.Memory

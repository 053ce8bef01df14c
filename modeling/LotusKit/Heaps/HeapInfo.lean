import LotusKit.Lib.Forest
import Mathlib.Data.List.Nodup

/-! How the heaps are listed. The walk has no stack: it goes up by the parent of a heap, and on from there. -/

namespace LotusKit.Heaps
open LotusKit.Lib

/-- A pointer that is not null. -/
abbrev Ptr := Nat

structure Heap where
  name : List Char
  size : Nat
  free : Nat
  mParent : Option Ptr
  mChildren : List Ptr

abbrev Memory := Ptr → Heap

/-- `OffsetList::front` -/
def front (list : List Ptr) : Option Ptr := list.head?

/-- `OffsetList::next` -/
def next (list : List Ptr) (obj : Ptr) : Option Ptr := (list.dropWhile (· ≠ obj)).tail.head?

inductive Label where
  | HEAPINFO_VISIT
  | HEAPINFO_DO_NEXT
  deriving DecidableEq

/-- The label that is jumped to, with the variables there. -/
structure Walk where
  label : Label
  h : Ptr
  depth : BitVec 32

/-- How a walk ends: it returns, it writes behind its buffer, or its steps have run out. -/
inductive Ended where
  | returned
  | overrun
  | running
  deriving DecidableEq

section Walk
variable {Entry : Type} (mem : Memory) (visit : Ptr → BitVec 32 → Option Entry)

/-- The jumps, for as many labels as are passed. `visit` is what stands behind the first label: what it
logs, or nothing where it writes behind its buffer. -/
def walk : Nat → Walk → List Entry × Ended
  | 0, _ => ([], .running)
  | fuel + 1, ⟨.HEAPINFO_VISIT, h, depth⟩ =>
    match visit h depth with
    | none => ([], .overrun)
    | some entry =>
      let rest :=
        match front (mem h).mChildren with
        | some htmp => walk fuel ⟨.HEAPINFO_VISIT, htmp, depth + 1⟩
        | none => walk fuel ⟨.HEAPINFO_DO_NEXT, h, depth⟩
      (entry :: rest.1, rest.2)
  | fuel + 1, ⟨.HEAPINFO_DO_NEXT, h, depth⟩ =>
    match (mem h).mParent with
    | none => ([], .returned)
    | some mParent =>
      match next (mem mParent).mChildren h with
      | some htmp => walk fuel ⟨.HEAPINFO_VISIT, htmp, depth⟩
      | none => walk fuel ⟨.HEAPINFO_DO_NEXT, mParent, depth - 1⟩

/-- What is logged of the visits in a list, with what comes behind them. -/
def logAll (visit : Ptr → Nat → Option Entry) : List (Ptr × Nat) → List Entry × Ended → List Entry × Ended
  | [], rest => rest
  | (h, depth) :: visits, rest =>
    match visit h depth with
    | none => ([], .overrun)
    | some entry => (entry :: (logAll visit visits rest).1, (logAll visit visits rest).2)

theorem logAll_append (visit : Ptr → Nat → Option Entry) (front back : List (Ptr × Nat)) (rest : List Entry × Ended) :
    logAll visit (front ++ back) rest = logAll visit front (logAll visit back rest) := by
  induction front with
  | nil => rfl
  | cons first front ih => rw [List.cons_append, logAll, logAll, ih]

/-- The forest stands below a heap: it has the parents and the lists of children that it says. -/
def Stands : Ptr → Forest Ptr → Prop
  | _, .nil => True
  | mParent, .cons h children siblings =>
    (mem h).mParent = some mParent ∧ (mem h).mChildren = children.roots ∧ children.roots.Nodup ∧
      Stands h children ∧ Stands mParent siblings

theorem next_eq {list before behind : List Ptr} {h : Ptr} (split_list : list = before ++ h :: behind)
    (nodup : list.Nodup) : next list h = behind.head? := by
  have fresh : ∀ a ∈ before, decide (a ≠ h) = true := by
    intro a here
    rw [split_list, List.nodup_append] at nodup
    exact decide_eq_true (nodup.2.2 a here h List.mem_cons_self)
  rw [next, split_list, List.dropWhile_append_of_pos fresh, List.dropWhile_cons_of_neg (by simp), List.tail_cons]

/-- Where the walk starts in a forest. An empty one is done. -/
def entered (mParent : Ptr) (depth : BitVec 32) : Forest Ptr → Walk
  | .nil => ⟨.HEAPINFO_DO_NEXT, mParent, depth - 1⟩
  | .cons h _ _ => ⟨.HEAPINFO_VISIT, h, depth⟩

theorem walk_visit {h : Ptr} {depth : BitVec 32} {children : Forest Ptr}
    (listed : (mem h).mChildren = children.roots) (fuel : Nat) :
    walk mem visit (fuel + 1) ⟨.HEAPINFO_VISIT, h, depth⟩ =
      match visit h depth with
      | none => ([], .overrun)
      | some entry =>
        (entry :: (walk mem visit fuel (entered h (depth + 1) children)).1,
          (walk mem visit fuel (entered h (depth + 1) children)).2) := by
  rw [walk, listed]
  cases children with
  | nil => rw [entered, BitVec.add_sub_cancel]; rfl
  | cons c _ _ => rfl

theorem walk_next {mParent h : Ptr} {depth : BitVec 32} {siblings : Forest Ptr}
    (up : (mem h).mParent = some mParent)
    (listed : next (mem mParent).mChildren h = siblings.roots.head?) (fuel : Nat) :
    walk mem visit (fuel + 1) ⟨.HEAPINFO_DO_NEXT, h, depth⟩ =
      walk mem visit fuel (entered mParent depth siblings) := by
  rw [walk, up]
  dsimp only
  rw [listed]
  cases siblings with
  | nil => rfl
  | cons s _ _ => rfl

/-- The walk through a forest logs it and goes on behind its parent. -/
theorem walk_forest {mParent : Ptr} {f : Forest Ptr} (stands : Stands mem mParent f) {before : List Ptr}
    (listed : (mem mParent).mChildren = before ++ f.roots) (nodup : (mem mParent).mChildren.Nodup)
    (depth fuel : Nat) :
    walk mem visit (2 * f.size + fuel) (entered mParent (BitVec.ofNat 32 depth) f) =
      logAll (fun h depth => visit h (BitVec.ofNat 32 depth)) (f.preorder depth)
        (walk mem visit fuel ⟨.HEAPINFO_DO_NEXT, mParent, BitVec.ofNat 32 depth - 1⟩) := by
  induction f generalizing mParent before depth fuel with
  | nil => rw [Forest.size, Nat.mul_zero, Nat.zero_add, entered, Forest.preorder, logAll]
  | cons h children siblings children_ih siblings_ih =>
    obtain ⟨up, down, distinct, below, beside⟩ := stands
    rw [Forest.roots] at listed
    have after : next (mem mParent).mChildren h = siblings.roots.head? := next_eq listed nodup
    have listed' : (mem mParent).mChildren = (before ++ [h]) ++ siblings.roots := by
      rw [listed, List.append_assoc, List.singleton_append]
    have steps : 2 * (Forest.cons h children siblings).size + fuel =
        2 * children.size + (2 * siblings.size + fuel + 1) + 1 := by
      rw [Forest.size]
      omega
    have down' : (mem h).mChildren = [] ++ children.roots := down
    have deeper : BitVec.ofNat 32 depth + 1 = BitVec.ofNat 32 (depth + 1) := (BitVec.ofNat_add _ _).symm
    rw [steps, entered, walk_visit mem visit down, deeper,
      children_ih below down' (down ▸ distinct), ← deeper, BitVec.add_sub_cancel,
      walk_next mem visit up after, siblings_ih beside listed' nodup, Forest.preorder, logAll, logAll_append]

end Walk

/-- The heaps below a first one, as they stand in memory. -/
structure HeapTree where
  mem : Memory
  rootheap0 : Ptr
  heaps : Forest Ptr
  top : (mem rootheap0).mParent = none
  listed : (mem rootheap0).mChildren = heaps.roots
  distinct : heaps.roots.Nodup
  stands : Stands mem rootheap0 heaps

namespace HeapTree
variable {Entry : Type} (t : HeapTree)

def all : Forest Ptr := .cons t.rootheap0 t.heaps .nil

/-- The walk ends, and has logged each heap once. -/
theorem walk_all (visit : Ptr → BitVec 32 → Option Entry) (fuel : Nat) :
    walk t.mem visit (2 * t.all.size + fuel) ⟨.HEAPINFO_VISIT, t.rootheap0, 0⟩ =
      logAll (fun h depth => visit h (BitVec.ofNat 32 depth)) (t.all.preorder 0) ([], .returned) := by
  have steps : 2 * t.all.size + fuel = 2 * t.heaps.size + (fuel + 1) + 1 := by
    rw [all, Forest.size, Forest.size]
    omega
  have listed' : (t.mem t.rootheap0).mChildren = [] ++ t.heaps.roots := t.listed
  have below := walk_forest t.mem visit t.stands listed' (t.listed ▸ t.distinct) 1 (fuel + 1)
  have ended (depth : BitVec 32) :
      walk t.mem visit (fuel + 1) ⟨.HEAPINFO_DO_NEXT, t.rootheap0, depth⟩ = ([], .returned) := by
    rw [walk, t.top]
  rw [ended] at below
  have first : (0 : BitVec 32) + 1 = BitVec.ofNat 32 1 := rfl
  rw [steps, walk_visit t.mem visit t.listed, first, below, all, Forest.preorder, Forest.preorder, List.append_nil,
    logAll]
  rfl

end HeapTree

/-- A line of the list, as it is passed to `SNPrintf` and `logJson`. -/
structure Entry where
  leftpad : List Char
  name : List Char
  h : Ptr
  size : Nat
  free : Nat
  deriving DecidableEq

def LEFTPAD_LEN : Nat := 65

/-- The text in the buffer once its end is set. Each blank that was the end before has been put back. -/
def leftpad (i : Nat) : List Char := ((List.replicate LEFTPAD_LEN ' ').set i '\x00').takeWhile (· ≠ '\x00')

def entry (mem : Memory) (h : Ptr) (leftpad : List Char) : Entry :=
  ⟨leftpad, (mem h).name, h, (mem h).size, (mem h).free⟩

/-- What `heapInfo` does at the first label. -/
def heapInfoVisit (mem : Memory) (h : Ptr) (depth : BitVec 32) : Option Entry :=
  if (depth * 4).toNat < LEFTPAD_LEN then some (entry mem h (leftpad (depth * 4).toNat)) else none

/-- `sys::heapInfo`, for as many labels as are passed. -/
def heapInfo (mem : Memory) (rootheap0 : Ptr) (fuel : Nat) : List Entry × Ended :=
  walk mem (heapInfoVisit mem) fuel ⟨.HEAPINFO_VISIT, rootheap0, 0⟩

theorem leftpad_eq {i : Nat} (inside : i < LEFTPAD_LEN) : leftpad i = List.replicate i ' ' := by
  have blank : ∀ c ∈ List.replicate i ' ', decide (c ≠ '\x00') = true := by
    intro c here
    rw [List.eq_of_mem_replicate here]
    rfl
  have short : i < (List.replicate LEFTPAD_LEN ' ').length := by rwa [List.length_replicate]
  rw [leftpad, List.set_eq_take_append_cons_drop, if_pos short, List.take_replicate, Nat.min_eq_left (Nat.le_of_lt inside),
    List.takeWhile_append_of_pos blank, List.takeWhile_cons_of_neg (by decide), List.append_nil]

/-- What the list shows of a heap so deep below the first one. -/
def indented (mem : Memory) (v : Ptr × Nat) : Entry := entry mem v.1 (List.replicate (4 * v.2) ' ')

theorem heapInfoVisit_eq {depth : Nat} (mem : Memory) (h : Ptr) (near : depth ≤ 17) :
    heapInfoVisit mem h (BitVec.ofNat 32 depth) = if depth ≤ 16 then some (indented mem (h, depth)) else none := by
  have index : (BitVec.ofNat 32 depth * 4).toNat = 4 * depth := by
    have four : (4 : BitVec 32).toNat = 4 := rfl
    rw [BitVec.toNat_mul, BitVec.toNat_ofNat, four]
    omega
  rw [heapInfoVisit, index]
  by_cases fits : depth ≤ 16
  · have inside : 4 * depth < LEFTPAD_LEN := by
      unfold LEFTPAD_LEN
      omega
    rw [if_pos fits, if_pos inside, leftpad_eq inside, indented]
  · have outside : ¬4 * depth < LEFTPAD_LEN := by
      unfold LEFTPAD_LEN
      omega
    rw [if_neg fits, if_neg outside]

/-- The first heap that is too deep lies one deeper than the buffer goes, where nothing wraps around. -/
theorem logAll_preorder (mem : Memory) (f : Forest Ptr) {depth : Nat} (near : depth ≤ 17)
    (rest : List Entry × Ended) :
    logAll (fun h depth => heapInfoVisit mem h (BitVec.ofNat 32 depth)) (f.preorder depth) rest =
      logAll (fun h depth => if depth ≤ 16 then some (indented mem (h, depth)) else none) (f.preorder depth) rest := by
  induction f generalizing depth rest with
  | nil => rfl
  | cons h children siblings children_ih siblings_ih =>
    rw [Forest.preorder, logAll, logAll, heapInfoVisit_eq mem h near]
    by_cases fits : depth ≤ 16
    · rw [if_pos fits]
      dsimp only
      rw [logAll_append, logAll_append, siblings_ih near, children_ih (by omega)]
    · rw [if_neg fits]

/-- The part of a list of visits up to the first one that is too deep. -/
theorem logAll_indented (mem : Memory) (visits : List (Ptr × Nat)) :
    logAll (fun h depth => if depth ≤ 16 then some (indented mem (h, depth)) else none) visits ([], .returned) =
      ((visits.takeWhile fun v => v.2 ≤ 16).map (indented mem),
        if visits.all fun v => v.2 ≤ 16 then .returned else .overrun) := by
  induction visits with
  | nil => rfl
  | cons v visits ih =>
    obtain ⟨h, depth⟩ := v
    rw [logAll, List.takeWhile_cons, List.all_cons]
    dsimp only
    by_cases fits : depth ≤ 16
    · rw [if_pos fits, decide_eq_true fits, if_pos rfl, Bool.true_and, List.map_cons]
      dsimp only
      rw [ih]
    · rw [if_neg fits, decide_eq_false fits, if_neg Bool.false_ne_true, Bool.false_and]
      rfl

/-- The list shows each heap once, below its parent and indented by its depth, up to the first heap that lies
more than sixteen below the first one. There the walk writes behind its buffer. -/
theorem heapInfo_logs (t : HeapTree) (fuel : Nat) :
    heapInfo t.mem t.rootheap0 (2 * t.all.size + fuel) =
      (((t.all.preorder 0).takeWhile fun v => v.2 ≤ 16).map (indented t.mem),
        if (t.all.preorder 0).all fun v => v.2 ≤ 16 then .returned else .overrun) := by
  rw [heapInfo, t.walk_all, logAll_preorder t.mem t.all (Nat.zero_le 17), logAll_indented]

/-- Two heaps below the first one, with one below the first of them. -/
def soundTree : HeapTree where
  mem := fun h =>
    match h with
    | 1 => ⟨"RootHeap".toList, 4096, 1024, none, [2, 4]⟩
    | 2 => ⟨"Sound".toList, 512, 128, some 1, [3]⟩
    | 3 => ⟨"Voice".toList, 64, 0, some 2, []⟩
    | _ => ⟨"zsdic".toList, 256, 256, some 1, []⟩
  rootheap0 := 1
  heaps := .cons 2 (.cons 3 .nil .nil) (.cons 4 .nil .nil)
  top := rfl
  listed := rfl
  distinct := by decide
  stands := ⟨rfl, rfl, by decide, ⟨rfl, rfl, by decide, trivial, trivial⟩, ⟨rfl, rfl, by decide, trivial, trivial⟩⟩

theorem heapInfo_soundTree : heapInfo soundTree.mem 1 8 =
    ([⟨[], "RootHeap".toList, 1, 4096, 1024⟩, ⟨List.replicate 4 ' ', "Sound".toList, 2, 512, 128⟩,
      ⟨List.replicate 8 ' ', "Voice".toList, 3, 64, 0⟩, ⟨List.replicate 4 ' ', "zsdic".toList, 4, 256, 256⟩],
      .returned) :=
  (heapInfo_logs soundTree 0).trans (by decide)

end LotusKit.Heaps

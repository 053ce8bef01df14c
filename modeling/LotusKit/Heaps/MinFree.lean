import LotusKit.Heaps.HeapInfo
import Mathlib.Logic.Function.Basic

/-! The least free sizes of the watched heaps: kept after each allocation, and printed along the same walk. -/

namespace LotusKit.Heaps
open LotusKit.Lib

def watchHeaps : List (List Char) :=
  ["ActorInstanceHeap", "SaveLoad", "EventHeap", "Sound", "GameUIWorkHeap", "NnVfxDataHeap", "VfxDynamicHeap",
    "ModuleSystem", "Create Terrain Scene Heap", "Cave Module", "agl::WorkHeap", "UIHeap", "EffectModel",
    "BancModule", "CreateModelScene", "Chm Module Heap L", "NavMeshMgr", "ReplaceModelHeap",
    "StaticCompoundBodyMgr", "aglTextureDataMgr::Unit", "Terrain Resource Heap", "GameTerrain",
    "DummyGeneralFormatParamMgrHeap", "Terrain Temp Heap", "Chm Module Heap S", "PlayReporter", "Challenge",
    "zsdic", "NinVirtualAddressHeap", "RootHeap"].map String.toList

/-- The index at which the loops over `watchHeaps` stop. -/
def watched (name : List Char) : Option Nat := watchHeaps.findIdx? (· = name)

abbrev MinFree := Nat → BitVec 32

def MinFree.start : MinFree := fun _ => 0xffffffff

/-- A heap after an allocation or before a free. -/
structure Postalloc where
  name : List Char
  free : Nat

def heap_postalloc (minFree : MinFree) (heap : Postalloc) : MinFree :=
  match watched heap.name with
  | none => minFree
  | some i =>
    if heap.free < (minFree i).toNat then Function.update minFree i (BitVec.ofNat 32 heap.free) else minFree

structure MinFreeLine where
  /-- `no_alloc` where there is none -/
  minFree : Option (BitVec 32)
  free : Nat
  size : Nat
  util : Int
  name : List Char
  h : Ptr
  deriving DecidableEq

/-- The percentage in use, in the arithmetic of `size_t`. -/
def util (size free : Nat) : Int :=
  if 0 < size then
    let quotient : BitVec 64 := 100 * (BitVec.ofNat 64 size - BitVec.ofNat 64 free) / BitVec.ofNat 64 size
    min (quotient.setWidth 32).toInt 999
  else 100

def minFreeLine (mem : Memory) (minFree : BitVec 32) (h : Ptr) : MinFreeLine :=
  ⟨if minFree = 0xffffffff then none else some minFree, (mem h).free, (mem h).size, util (mem h).size (mem h).free,
    (mem h).name, h⟩

/-- What `heap_print_min_free_impl` prints at each heap. -/
def heap_print_min_free_impl (mem : Memory) (minFree : MinFree) (dumproot : Ptr) (fuel : Nat) :
    List (Option MinFreeLine) × Ended :=
  walk mem (fun h _ => some ((watched (mem h).name).map fun i => minFreeLine mem (minFree i) h)) fuel
    ⟨.HEAPINFO_VISIT, dumproot, 0⟩

/-- The least of the free sizes that were seen under a name, and no more than the start. -/
def least (heaps : List Postalloc) (i : Nat) : Nat :=
  ((heaps.filter fun heap => watched heap.name = some i).map Postalloc.free).foldl min 0xffffffff

theorem heap_postalloc_toNat (minFree : MinFree) (heap : Postalloc) (i : Nat) :
    (heap_postalloc minFree heap i).toNat =
      if watched heap.name = some i then min (minFree i).toNat heap.free else (minFree i).toNat := by
  rw [heap_postalloc]
  cases found : watched heap.name with
  | none => rw [if_neg (Option.some_ne_none i).symm]
  | some j =>
    dsimp only
    by_cases same : j = i
    · subst same
      rw [if_pos rfl]
      have small := (minFree j).isLt
      split
      case isTrue less =>
        rw [Function.update_self, BitVec.toNat_ofNat]
        omega
      case isFalse => omega
    · have apart : ¬some j = some i := fun equal => same (Option.some.inj equal)
      rw [if_neg apart]
      split
      · rw [Function.update_of_ne (Ne.symm same)]
      · rfl

theorem foldl_postalloc (heaps : List Postalloc) (minFree : MinFree) (i : Nat) :
    (heaps.foldl heap_postalloc minFree i).toNat =
      ((heaps.filter fun heap => watched heap.name = some i).map Postalloc.free).foldl min (minFree i).toNat := by
  induction heaps generalizing minFree with
  | nil => rfl
  | cons heap heaps ih =>
    rw [List.foldl_cons, ih, heap_postalloc_toNat, List.filter_cons]
    by_cases named : watched heap.name = some i
    · rw [if_pos named, if_pos (decide_eq_true named), List.map_cons, List.foldl_cons]
    · rw [if_neg named, decide_eq_false named, if_neg Bool.false_ne_true]

theorem logAll_some {Entry : Type} (line : Ptr → Entry) (visits : List (Ptr × Nat)) (rest : List Entry × Ended) :
    logAll (fun h _ => some (line h)) visits rest = (visits.map (fun v => line v.1) ++ rest.1, rest.2) := by
  induction visits with
  | nil => rfl
  | cons v visits ih =>
    rw [logAll, ih]
    rfl

/-- Each watched heap of the tree is printed once, with the least free size that was seen under its name. -/
theorem prints_least (t : HeapTree) (heaps : List Postalloc) (fuel : Nat) :
    heap_print_min_free_impl t.mem (heaps.foldl heap_postalloc .start) t.rootheap0 (2 * t.all.size + fuel) =
      ((t.all.preorder 0).map fun v =>
        (watched (t.mem v.1).name).map fun i => minFreeLine t.mem (BitVec.ofNat 32 (least heaps i)) v.1, .returned) := by
  rw [heap_print_min_free_impl, t.walk_all, logAll_some, List.append_nil]
  have kept (i : Nat) : BitVec.ofNat 32 (least heaps i) = heaps.foldl heap_postalloc .start i := by
    have sizes : (heaps.foldl heap_postalloc .start i).toNat = least heaps i := foldl_postalloc heaps .start i
    rw [← sizes, BitVec.ofNat_toNat, BitVec.setWidth_eq]
  simp only [kept]

/-- The free sizes go down and up again, and one does not fit into 32 bits. -/
def soundAllocs : List Postalloc :=
  [⟨"Sound".toList, 256⟩, ⟨"Voice".toList, 1⟩, ⟨"Sound".toList, 64⟩, ⟨"RootHeap".toList, 0x100000000⟩, ⟨"Sound".toList, 128⟩,
    ⟨"zsdic".toList, 300⟩]

theorem soundTree_least :
    heap_print_min_free_impl soundTree.mem (soundAllocs.foldl heap_postalloc .start) 1 8 =
      ([some ⟨none, 1024, 4096, 75, "RootHeap".toList, 1⟩, some ⟨some 64, 128, 512, 75, "Sound".toList, 2⟩, none,
        some ⟨some 300, 256, 256, 0, "zsdic".toList, 4⟩], .returned) :=
  (prints_least soundTree soundAllocs 0).trans (by decide +kernel)

end LotusKit.Heaps

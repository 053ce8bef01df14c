import Mathlib.Data.List.Sort
import Mathlib.Data.List.Nodup
import Mathlib.Data.List.Perm.Basic
import Mathlib.Tactic.Common

/-! Dragging selected rows to another place. -/

namespace LotusKit.Editor
variable {α : Type}

/-- `Array.prototype.splice` -/
def splice (start : Int) (deleteCount : Nat) (items rows : List α) : List α :=
  let first := if start < 0 then (rows.length + start).toNat else min start.toNat rows.length
  rows.take first ++ items ++ rows.drop (first + deleteCount)

/-- `draggedIndices`, from the selection in the order it was made. -/
def handleDragStart (selectedIndices : List Nat) (index : Nat) : List Nat :=
  if index ∈ selectedIndices then selectedIndices.insertionSort (· ≤ ·) else [index]

/-- The loop from the last dragged row to the first: what stays, and `itemsToMove`. `none` is an
`undefined` among the rows. -/
def liftRows (draggedIndices : List Nat) (rows : List α) : Option (List α × List α) :=
  draggedIndices.foldrM (fun (idx : Nat) (state : List α × List α) => do
    let item ← state.1[idx]?
    return (splice idx 1 [] state.1, item :: state.2)) (rows, [])

/-- `dragTargetPosition` -/
inductive TargetPosition where
  | unset
  | top
  | bottom
  deriving DecidableEq

/-- The rows and the selection after a drop. -/
def dropRows (draggedIndices : List Nat) (dragTargetIndex : Nat) (position : TargetPosition) (rows : List α) :
    Option (List α × List Int) := do
  let (rest, itemsToMove) ← liftRows draggedIndices rows
  let adjustment := draggedIndices.countP (· < dragTargetIndex)
  let finalIndex : Int := (dragTargetIndex : Int) - adjustment
  let finalIndex := if position = .bottom then finalIndex + 1 else finalIndex
  return (splice finalIndex 0 itemsToMove rest, (List.range itemsToMove.length).map fun i : Nat => finalIndex + i)

/-- The rows at some of the places, in order. -/
def rowsAt (P : Nat → Bool) (rows : List α) : List α := (rows.zipIdx.filter fun row => P row.2).map Prod.fst

theorem splice_of_le {start : Nat} {rows : List α} (inside : start ≤ rows.length) (deleteCount : Nat) (items : List α) :
    splice (start : Int) deleteCount items rows = rows.take start ++ items ++ rows.drop (start + deleteCount) := by
  unfold splice
  rw [if_neg (by omega), Int.toNat_natCast, Nat.min_eq_left inside]

section Between
variable {front back : List α} {row : α} {idx : Nat} (place : front.length = idx)

include place

theorem getElem?_between : (front ++ row :: back)[idx]? = some row := by
  subst place
  rw [List.getElem?_append_right (Nat.le_refl _), Nat.sub_self, List.getElem?_cons_zero]

theorem splice_between : splice (idx : Int) 1 [] (front ++ row :: back) = front ++ back := by
  subst place
  have behind : (front ++ row :: back).drop (front.length + 1) = back := by
    rw [List.drop_append, List.drop_eq_nil_of_le (by omega), List.nil_append, Nat.add_sub_cancel_left, List.drop_succ_cons,
      List.drop_zero]
  rw [splice_of_le (by rw [List.length_append]; omega), List.take_left, List.append_nil, behind]

end Between

section Places
variable {n i t : Nat} {dragged : List Nat}

theorem range_split (inside : i < n) : List.range n = List.range i ++ i :: List.range' (i + 1) (n - i - 1) := by
  have whole : n = i + 1 + (n - i - 1) := by omega
  calc
    List.range n = List.range' 0 (i + 1 + (n - i - 1)) := by rw [← whole, List.range_eq_range']
    _ = List.range' 0 (i + 1) ++ List.range' (0 + (i + 1)) (n - i - 1) := List.range'_append_1.symm
    _ = List.range i ++ i :: List.range' (i + 1) (n - i - 1) := by
      rw [Nat.zero_add, ← List.range_eq_range', List.range_succ, List.append_assoc]
      rfl

/-- Of the places before `t`, those that are not dragged are counted by the rest. -/
theorem length_filter_range (nodup : dragged.Nodup) (t : Nat) :
    ((List.range t).filter fun p => p ∉ dragged).length + dragged.countP (· < t) = t := by
  have same : ((List.range t).filter fun p => p ∈ dragged).Perm (dragged.filter fun p => p < t) := by
    rw [List.perm_ext_iff_of_nodup (List.nodup_range.filter _) (nodup.filter _)]
    intro p
    simp only [List.mem_filter, List.mem_range, decide_eq_true_eq]
    exact and_comm
  have lengths := List.length_eq_countP_add_countP (fun p => decide (p ∈ dragged)) (l := List.range t)
  rw [List.length_range, List.countP_eq_length_filter, List.countP_eq_length_filter, same.length_eq,
    ← List.countP_eq_length_filter] at lengths
  simp only [decide_not, decide_eq_true_eq] at lengths ⊢
  omega

/-- In order, the dragged rows are the places that are dragged. -/
theorem filter_range_mem (sorted : dragged.Pairwise (· < ·)) (rows : ∀ p ∈ dragged, p < n) :
    ((List.range n).filter fun p => p ∈ dragged) = dragged := by
  have same : ((List.range n).filter fun p => p ∈ dragged).Perm dragged := by
    rw [List.perm_ext_iff_of_nodup (List.nodup_range.filter _) (sorted.imp Nat.ne_of_lt)]
    intro p
    simp only [List.mem_filter, List.mem_range, decide_eq_true_eq]
    exact and_iff_right_of_imp (rows p)
  refine List.Perm.eq_of_pairwise ?_ (List.pairwise_lt_range.filter _) sorted same
  intro a b _ _ less greater
  omega

theorem filter_range_front (behind : ∀ p ∈ dragged, i ≤ p) :
    ((List.range i).filter fun p => p ∉ dragged) = List.range i := by
  rw [List.filter_eq_self]
  intro p before
  rw [List.mem_range] at before
  exact decide_eq_true fun there => absurd (behind p there) (by omega)

end Places

section Rows
variable {f : Nat → α} {n : Nat} {dragged : List Nat}

theorem exists_map_range {rows : List α} (nonempty : rows ≠ []) :
    ∃ f : Nat → α, rows = (List.range rows.length).map f := by
  obtain ⟨row, rest, rfl⟩ := List.exists_cons_of_ne_nil nonempty
  refine ⟨fun i => (row :: rest)[i]?.getD row, ?_⟩
  apply List.ext_getElem
  · rw [List.length_map, List.length_range]
  · intro i inside _
    rw [List.getElem_map, List.getElem_range, List.getElem?_eq_getElem inside, Option.getD_some]

theorem rowsAt_map (P : Nat → Bool) : rowsAt P ((List.range n).map f) = ((List.range n).filter P).map f := by
  have places : ((List.range n).map f).zipIdx = (List.range n).map fun i => (f i, i) := by
    apply List.ext_getElem
    · simp only [List.length_zipIdx, List.length_map]
    · intro i inside inside'
      simp only [List.getElem_zipIdx, List.getElem_map, List.getElem_range, Nat.zero_add]
  rw [rowsAt, places, List.filter_map, List.map_map]
  rfl

/-- The dragged rows are lifted out in order, from the last to the first. -/
theorem liftRows_eq (sorted : dragged.Pairwise (· < ·)) (rows : ∀ p ∈ dragged, p < n) :
    liftRows dragged ((List.range n).map f) =
      some (((List.range n).filter fun p => p ∉ dragged).map f, dragged.map f) := by
  induction dragged with
  | nil =>
    simp only [List.not_mem_nil, not_false_eq_true, decide_true, List.filter_true, List.map_nil]
    rfl
  | cons idx rest ih =>
    rw [List.pairwise_cons] at sorted
    rw [List.forall_mem_cons] at rows
    -- what was lifted before stood behind, so the row is still at its place
    have own : idx ∉ rest := fun there => absurd (sorted.1 idx there) (Nat.lt_irrefl idx)
    have before : ((List.range n).filter fun p => p ∉ rest) =
        List.range idx ++ idx :: (List.range' (idx + 1) (n - idx - 1)).filter fun p => p ∉ rest := by
      rw [range_split rows.1, List.filter_append, filter_range_front fun p there => Nat.le_of_lt (sorted.1 p there),
        List.filter_cons, if_pos (decide_eq_true own)]
    have after : ((List.range n).filter fun p => p ∉ idx :: rest) =
        List.range idx ++ (List.range' (idx + 1) (n - idx - 1)).filter fun p => p ∉ rest := by
      have behind : ∀ p ∈ idx :: rest, idx ≤ p :=
        List.forall_mem_cons.mpr ⟨Nat.le_refl idx, fun p there => Nat.le_of_lt (sorted.1 p there)⟩
      have dropped : ¬ decide (idx ∉ idx :: rest) = true := fun kept => of_decide_eq_true kept List.mem_cons_self
      rw [range_split rows.1, List.filter_append, filter_range_front behind, List.filter_cons, if_neg dropped]
      congr 1
      apply List.filter_congr
      intro p there
      have later : p ≠ idx := by
        have start := (List.mem_range'_1.mp there).1
        omega
      simp only [List.mem_cons, later, false_or]
    have lifted := ih sorted.2 rows.2
    rw [before, List.map_append, List.map_cons] at lifted
    have place : ((List.range idx).map f).length = idx := by rw [List.length_map, List.length_range]
    unfold liftRows at lifted ⊢
    rw [List.foldrM_cons, lifted, after, List.map_append, List.map_cons]
    simp only [Option.bind_eq_bind, Option.bind_some]
    rw [getElem?_between place, splice_between place]
    rfl

end Rows

/-- The rows that stand in front of a drop. -/
def standsBefore (position : TargetPosition) (target p : Nat) : Bool :=
  if position = .bottom then p ≤ target else p < target

theorem handleDragStart_sorted {selected : List Nat} (nodup : selected.Nodup) (index : Nat) :
    (handleDragStart selected index).Pairwise (· < ·) := by
  unfold handleDragStart
  split
  · have sorted : (selected.insertionSort (· ≤ ·)).Pairwise (· ≤ ·) := List.pairwise_insertionSort (· ≤ ·) selected
    have distinct : (selected.insertionSort (· ≤ ·)).Nodup :=
      (List.perm_insertionSort (· ≤ ·) selected).nodup_iff.mpr nodup
    exact (sorted.and distinct).imp fun both => Nat.lt_of_le_of_ne both.1 both.2
  · exact List.pairwise_singleton _ _

theorem mem_handleDragStart (selected : List Nat) (index p : Nat) :
    p ∈ handleDragStart selected index ↔ if index ∈ selected then p ∈ selected else p = index := by
  unfold handleDragStart
  split
  · exact (List.perm_insertionSort (· ≤ ·) selected).mem_iff
  · exact List.mem_singleton

section Target
variable {n target : Nat} {dragged : List Nat} (isTarget : target < n) (outside : target ∉ dragged)
  (position : TargetPosition)

include isTarget outside

/-- The places in front of the drop: those before the target, and the target for a drop below it. -/
theorem filter_range_before : ((List.range n).filter fun p => !decide (p ∈ dragged) && standsBefore position target p) =
    ((List.range target).filter fun p => p ∉ dragged) ++ if position = .bottom then [target] else [] := by
  have near : ((List.range target).filter fun p => !decide (p ∈ dragged) && standsBefore position target p) =
      (List.range target).filter fun p => p ∉ dragged := by
    apply List.filter_congr
    intro p there
    rw [List.mem_range] at there
    have before : standsBefore position target p = true := by
      unfold standsBefore
      split
      · exact decide_eq_true (by omega)
      · exact decide_eq_true there
    rw [before, Bool.and_true, decide_not]
  have far : ((List.range' (target + 1) (n - target - 1)).filter
      fun p => !decide (p ∈ dragged) && standsBefore position target p) = [] := by
    rw [List.filter_eq_nil_iff]
    intro p there
    have start := (List.mem_range'_1.mp there).1
    have behind : standsBefore position target p = false := by
      unfold standsBefore
      split
      · exact decide_eq_false (by omega)
      · exact decide_eq_false (by omega)
    rw [behind, Bool.and_false]
    exact Bool.false_ne_true
  rw [range_split isTarget, List.filter_append, near, List.filter_cons, far, decide_eq_false outside, Bool.not_false,
    Bool.true_and]
  by_cases below : position = .bottom
  · simp only [standsBefore, below, if_true, Nat.le_refl, decide_true]
  · simp only [standsBefore, below, if_false, Nat.lt_irrefl, decide_false, Bool.false_eq_true]

theorem filter_range_behind : ((List.range n).filter fun p => !decide (p ∈ dragged) && !standsBefore position target p) =
    (if position = .bottom then [] else [target]) ++
      (List.range' (target + 1) (n - target - 1)).filter fun p => p ∉ dragged := by
  have near : ((List.range target).filter fun p => !decide (p ∈ dragged) && !standsBefore position target p) = [] := by
    rw [List.filter_eq_nil_iff]
    intro p there
    rw [List.mem_range] at there
    have before : standsBefore position target p = true := by
      unfold standsBefore
      split
      · exact decide_eq_true (by omega)
      · exact decide_eq_true there
    rw [before, Bool.not_true, Bool.and_false]
    exact Bool.false_ne_true
  have far : ((List.range' (target + 1) (n - target - 1)).filter
      fun p => !decide (p ∈ dragged) && !standsBefore position target p) =
      (List.range' (target + 1) (n - target - 1)).filter fun p => p ∉ dragged := by
    apply List.filter_congr
    intro p there
    have start := (List.mem_range'_1.mp there).1
    have behind : standsBefore position target p = false := by
      unfold standsBefore
      split
      · exact decide_eq_false (by omega)
      · exact decide_eq_false (by omega)
    rw [behind, Bool.not_false, Bool.and_true, decide_not]
  rw [range_split isTarget, List.filter_append, near, List.filter_cons, far, decide_eq_false outside, Bool.not_false,
    Bool.true_and, List.nil_append]
  by_cases below : position = .bottom
  · simp only [standsBefore, below, if_true, Nat.le_refl, decide_true, Bool.not_true, Bool.false_eq_true, if_false,
      List.nil_append]
  · simp only [standsBefore, below, if_false, Nat.lt_irrefl, decide_false, Bool.not_false, if_true, List.cons_append,
      List.nil_append]

end Target

theorem rowsAt_perm (P Q : Nat → Bool) (rows : List α) :
    (rowsAt (fun p => !P p && Q p) rows ++ rowsAt P rows ++ rowsAt (fun p => !P p && !Q p) rows).Perm rows := by
  let places := rows.zipIdx
  have outside : (places.filter fun row => !P row.2 && Q row.2) ++ (places.filter fun row => !P row.2 && !Q row.2) |>.Perm
      (places.filter fun row => !P row.2) := by
    have halves := List.filter_append_perm (fun row : α × Nat => Q row.2) (places.filter fun row => !P row.2)
    rw [List.filter_filter, List.filter_filter] at halves
    simp only [Bool.and_comm] at halves ⊢
    exact halves
  have whole := List.filter_append_perm (fun row : α × Nat => P row.2) places
  have all : (places.filter (fun row => !P row.2 && Q row.2) ++ places.filter (fun row => P row.2) ++
      places.filter (fun row => !P row.2 && !Q row.2)).Perm places := by
    have front : ((places.filter fun row => !P row.2 && Q row.2) ++ places.filter fun row => P row.2).Perm
        ((places.filter fun row => P row.2) ++ places.filter fun row => !P row.2 && Q row.2) := List.perm_append_comm
    refine (front.append_right _).trans ?_
    rw [List.append_assoc]
    exact (outside.append_left _).trans whole
  have named := all.map Prod.fst
  rw [List.map_append, List.map_append, List.zipIdx_map_fst] at named
  exact named

/-- A drop puts the dragged rows, in their order, before or behind the target, and keeps the order of the others. -/
theorem dropRows_reorders (rows : List α) (selected : List Nat) (nodup : selected.Nodup)
    (inRows : ∀ p ∈ selected, p < rows.length) (index : Nat) (isRow : index < rows.length) (target : Nat)
    (isTarget : target < rows.length) (outside : target ∉ handleDragStart selected index) (position : TargetPosition) :
    let isDragged := fun p => decide (p ∈ handleDragStart selected index)
    let front := rowsAt (fun p => !isDragged p && standsBefore position target p) rows
    let moved := rowsAt isDragged rows
    let back := rowsAt (fun p => !isDragged p && !standsBefore position target p) rows
    dropRows (handleDragStart selected index) target position rows =
        some (front ++ moved ++ back, (List.range moved.length).map fun i : Nat => (front.length + i : Int)) ∧
      (front ++ moved ++ back).Perm rows := by
  intro isDragged front moved back
  refine ⟨?_, rowsAt_perm isDragged (standsBefore position target) rows⟩
  have sorted := handleDragStart_sorted nodup index
  have inside : ∀ p ∈ handleDragStart selected index, p < rows.length := by
    intro p there
    rw [mem_handleDragStart] at there
    split at there
    · exact inRows p there
    · exact there ▸ isRow
  obtain ⟨f, whole⟩ := exists_map_range (List.ne_nil_of_length_pos (by omega : 0 < rows.length))
  have lifted := liftRows_eq (f := f) sorted inside
  rw [← whole] at lifted
  have movedEq : moved = (handleDragStart selected index).map f := by
    have places := filter_range_mem sorted inside
    have rows' := rowsAt_map (f := f) (n := rows.length) isDragged
    rw [← whole] at rows'
    rw [places] at rows'
    exact rows'
  have frontEq : front = (((List.range target).filter fun p => p ∉ handleDragStart selected index) ++
      if position = .bottom then [target] else []).map f := by
    have rows' := rowsAt_map (f := f) (n := rows.length) fun p => !isDragged p && standsBefore position target p
    rw [← whole, filter_range_before isTarget outside position] at rows'
    exact rows'
  have backEq : back = ((if position = .bottom then [] else [target]) ++
      (List.range' (target + 1) (rows.length - target - 1)).filter
        fun p => p ∉ handleDragStart selected index).map f := by
    have rows' := rowsAt_map (f := f) (n := rows.length) fun p => !isDragged p && !standsBefore position target p
    rw [← whole, filter_range_behind isTarget outside position] at rows'
    exact rows'
  have restEq : (((List.range rows.length).filter fun p => p ∉ handleDragStart selected index).map f) = front ++ back := by
    rw [frontEq, backEq, range_split isTarget, List.filter_append, List.filter_cons, if_pos (decide_eq_true outside)]
    by_cases below : position = .bottom
    · simp only [below, if_true, List.map_append, List.map_cons, List.map_nil, List.append_assoc, List.cons_append,
        List.nil_append]
    · simp only [below, if_false, List.map_append, List.map_cons, List.append_nil, List.cons_append, List.nil_append]
  have place : ((if position = .bottom then ((target : Int) -
      ((handleDragStart selected index).countP (· < target) : Nat)) + 1
      else (target : Int) - ((handleDragStart selected index).countP (· < target) : Nat)) : Int) = front.length := by
    have count := length_filter_range (sorted.imp Nat.ne_of_lt) target
    rw [frontEq, List.length_map, List.length_append]
    by_cases below : position = .bottom
    · rw [if_pos below, if_pos below, List.length_singleton]
      omega
    · rw [if_neg below, if_neg below, List.length_nil]
      omega
  unfold dropRows
  rw [lifted]
  simp only [Option.bind_eq_bind, Option.bind_some]
  rw [place, restEq, ← movedEq, splice_of_le (by rw [List.length_append]; omega), List.take_left, Nat.add_zero,
    List.drop_left]
  rfl

/-- Rows 1 and 3, dropped below row 4. -/
theorem dropRows_below_last :
    dropRows (handleDragStart [3, 1] 3) 4 .bottom ['a', 'b', 'c', 'd', 'e'] = some (['a', 'c', 'e', 'b', 'd'], [3, 4]) := by
  have drops := (dropRows_reorders ['a', 'b', 'c', 'd', 'e'] [3, 1] (by decide) (by decide) 3 (by decide) 4 (by decide)
    (by decide +kernel) .bottom).1
  rw [drops]
  decide +kernel

end LotusKit.Editor

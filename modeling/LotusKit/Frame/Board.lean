import LotusKit.Frame.Lists
import Mathlib.Algebra.Ring.Nat

/-! What the draw lists are for: whatever is appended between two frames is drawn by the next one, list
by list and in the order of the calls, and drawn once. -/

namespace LotusKit.Frame
open LotusKit.Lib.LinkedList

variable {T α : Type} {K : Nat}

/-- What has been appended since the last frame, and what of it has been drawn. -/
structure Board (K : Nat) (α : Type) where
  queued : Fin K → List α
  drawn : List (Fin K × α)

namespace Board

def empty : Board K α := ⟨fun _ => [], []⟩

variable (b : Board K α)

/-- The first `k` lists in the order in which they are drawn. -/
def shown (k : Nat) : List (Fin K × α) := ((List.finRange K).take k).flatMap fun i => (b.queued i).map (Prod.mk i)

/-- Nothing is appended while lists are drawn, what is drawn comes next, and the memory is freed when
everything has been drawn. -/
def Allows : DrawEvent K α → Prop
  | .appended _ _ => b.drawn = []
  | .drawn i x => b.drawn ++ [(i, x)] <+: b.shown K
  | .freed => b.drawn = b.shown K

def after : DrawEvent K α → Board K α
  | .appended i x => { b with queued := Function.update b.queued i (b.queued i ++ [x]) }
  | .drawn i x => { b with drawn := b.drawn ++ [(i, x)] }
  | .freed => empty

def Proper : Board K α → List (DrawEvent K α) → Prop
  | _, [] => True
  | b, event :: events => b.Allows event ∧ (b.after event).Proper events

theorem shown_succ (i : Fin K) : b.shown (i + 1) = b.shown i ++ (b.queued i).map (Prod.mk i) := by
  have inside : (i : Nat) < (List.finRange K).length := i.isLt.trans_eq List.length_finRange.symm
  have one_more : (List.finRange K).take (i + 1) = (List.finRange K).take i ++ [i] := by
    rw [List.take_succ_eq_append_getElem inside, List.getElem_finRange]
    rfl
  calc b.shown (i + 1)
      = ((List.finRange K).take i ++ [i]).flatMap fun i => (b.queued i).map (Prod.mk i) := by rw [shown, one_more]
    _ = b.shown i ++ (b.queued i).map (Prod.mk i) := by rw [List.flatMap_append, List.flatMap_singleton, shown]

/-- How many turns a thread still needs that draws from the list `k` on. -/
def left (k : Nat) : Nat := (((List.finRange K).drop k).map fun i => (b.queued i).length + 2).sum + 2

theorem left_eq (i : Fin K) : b.left i = (b.queued i).length + 2 + b.left (i + 1) := by
  have inside : (i : Nat) < (List.finRange K).length := i.isLt.trans_eq List.length_finRange.symm
  have first : (List.finRange K)[(i : Nat)] = i := by
    rw [List.getElem_finRange]
    rfl
  rw [left, List.drop_eq_getElem_cons inside, first, List.map_cons, List.sum_cons, Nat.add_assoc, left]

theorem two_le_left (k : Nat) : 2 ≤ b.left k := Nat.le_add_left _ _

theorem shown_prefix (k : Nat) : b.shown k <+: b.shown K := by
  refine ⟨((List.finRange K).drop k).flatMap fun i => (b.queued i).map (Prod.mk i), ?_⟩
  rw [shown, ← List.flatMap_append, List.take_append_drop, shown, List.take_of_length_le (List.length_finRange).le]

theorem shown_all {k : Nat} (all : K ≤ k) : b.shown k = b.shown K := by
  rw [shown, shown, List.take_of_length_le (List.length_finRange.trans_le all), List.take_of_length_le (List.length_finRange).le]

end Board

variable {items : Fin K → List (Ptr × α)} {b : Board K α}

/-- Between two frames: the lists hold what has been appended. -/
structure Filled (b : Board K α) (items : Fin K → List (Ptr × α)) : Prop where
  contents : ∀ i, (items i).map Prod.snd = b.queued i
  before : b.drawn = []

/-- Within a frame: the first `k` lists are wiped. -/
def Wiped (b : Board K α) (items : Fin K → List (Ptr × α)) (k : Nat) : Prop :=
  ∀ i : Fin K, (items i).map Prod.snd = if i < k then [] else b.queued i

/-- A node that no list has yet. -/
structure Fresh (heap : Memory Ptr α) (items : Fin K → List (Ptr × α)) (p : Ptr) (x : α) : Prop where
  here : heap p = some ⟨x, none⟩
  outside : ∀ i, p ∉ (items i).map Prod.fst

/-- What holds where the owner of the lock is, when it gives the lock back after at most `n` turns. -/
def Stage (heap : Memory Ptr α) (b : Board K α) (items : Fin K → List (Ptr × α)) (n : Nat) : Pc K α → Prop
  | .idle => False
  | .alloc i _ => Filled b items ∧ (b.queued i).length + 5 ≤ n
  | .allocArgs i x p => Filled b items ∧ Fresh heap items p x ∧ (b.queued i).length + 4 ≤ n
  | .append i x p => Filled b items ∧ Fresh heap items p x ∧ (b.queued i).length + 3 ≤ n
  | .enter i x p => Filled b items ∧ Fresh heap items p x ∧ (b.queued i).length + 2 ≤ n
  | .walk i x p node => Filled b items ∧ Fresh heap items p x ∧
      ∃ front y back, items i = front ++ (node, y) :: back ∧ back.length + 2 ≤ n
  | .release => Filled b items ∧ 1 ≤ n
  | .drawList k => Wiped b items k ∧ b.drawn = b.shown k ∧ b.left k ≤ n
  | .drawNode i node => Wiped b items i ∧ ∃ front x back, items i = front ++ (node, x) :: back ∧
      (b.drawn = b.shown i ++ front.map fun item => (i, item.2)) ∧ back.length + 2 + b.left (i + 1) ≤ n
  | .wipe i => Wiped b items i ∧ b.drawn = b.shown (i + 1) ∧ 1 + b.left (i + 1) ≤ n

structure Inv (s : DrawFrame T α K) (b : Board K α) (items : Fin K → List (Ptr × α)) (n : Nat) : Prop where
  laid : Laid s.heap s.drawLists items
  idle : ∀ t, s.drawListLock ≠ some t → s.pc t = .idle
  free : s.drawListLock = none → Filled b items
  held : ∀ t, s.drawListLock = some t → Stage s.heap b items n (s.pc t)

/-- The owner of the lock goes on, and as long as there is one, nobody else does. -/
structure Goes (s : DrawFrame T α K) (t : T) (n : Nat) (s' : DrawFrame T α K) (n' : Nat) : Prop where
  owner : s.drawListLock = some t → s'.drawListLock = none ∨ s'.drawListLock = some t ∧ n' < n
  other : s.drawListLock ≠ none → s.drawListLock ≠ some t → s' = s ∧ n' = n

/-- No step touches a node that is not alive, and each one does what the board allows. -/
def Outcome.Keeps (s : DrawFrame T α K) (t : T) (b : Board K α) (n : Nat) :
    Outcome (DrawFrame T α K) (DrawEvent K α) → Prop
  | .blocked => True
  | .fault => False
  | .next s' none => ∃ items n', Inv s' b items n' ∧ Goes s t n s' n'
  | .next s' (some event) => b.Allows event ∧ ∃ items n', Inv s' (b.after event) items n' ∧ Goes s t n s' n'

theorem Filled.append (filled : Filled b items) (i : Fin K) (x : α) (p : Ptr) :
    Filled (b.after (.appended i x)) (Function.update items i (items i ++ [(p, x)])) where
  contents j := by
    change _ = Function.update b.queued i (b.queued i ++ [x]) j
    by_cases same : j = i
    · subst same
      rw [Function.update_self, Function.update_self, List.map_append, filled.contents, List.map_singleton]
    · rw [Function.update_of_ne same, Function.update_of_ne same, filled.contents]
  before := filled.before

theorem Filled.length (filled : Filled b items) (i : Fin K) : (items i).length = (b.queued i).length := by
  rw [← filled.contents, List.length_map]

theorem Wiped.zero (filled : Filled b items) : Wiped b items 0 := by
  intro i
  rw [if_neg (Nat.not_lt_zero _), filled.contents]

theorem Wiped.next {i : Fin K} (wiped : Wiped b items i) : Wiped b (Function.update items i []) (i + 1) := by
  intro j
  by_cases same : j = i
  · subst same
    rw [Function.update_self, if_pos (Nat.lt_succ_self _)]
    rfl
  · have differs : (j : Nat) ≠ i := fun same_index => same (Fin.ext same_index)
    rw [Function.update_of_ne same, wiped j]
    exact if_congr (by omega) rfl rfl

theorem Wiped.contents {i : Fin K} (wiped : Wiped b items i) : (items i).map Prod.snd = b.queued i := by
  rw [wiped i, if_neg (Nat.lt_irrefl _)]

theorem Wiped.length {i : Fin K} (wiped : Wiped b items i) : (items i).length = (b.queued i).length := by
  rw [← wiped.contents, List.length_map]

theorem Wiped.skip {i : Fin K} (wiped : Wiped b items i) (nothing : items i = []) : Wiped b items (i + 1) := by
  have same : Function.update items i [] = items := by rw [← nothing, Function.update_eq_self]
  exact same ▸ wiped.next

theorem Wiped.shown_succ {i : Fin K} (wiped : Wiped b items i) :
    b.shown (i + 1) = b.shown i ++ (items i).map fun item => (i, item.2) := by
  rw [b.shown_succ, ← wiped.contents, List.map_map]
  rfl

/-- Where the lists are wiped, nothing stands in them. -/
theorem Wiped.all {k : Nat} (wiped : Wiped b items k) (all : K ≤ k) : items = fun _ => [] := by
  funext i
  have nothing := wiped i
  rw [if_pos (i.isLt.trans_le all)] at nothing
  exact List.map_eq_nil_iff.mp nothing

theorem Stage.pos {heap : Memory Ptr α} {n : Nat} {pc : Pc K α} (stage : Stage heap b items n pc) : 0 < n := by
  cases pc with
  | idle => exact stage.elim
  | alloc | release => exact Nat.lt_of_lt_of_le (Nat.succ_pos _) stage.2
  | allocArgs | append | enter => exact Nat.lt_of_lt_of_le (Nat.succ_pos _) stage.2.2
  | walk i x p node =>
    obtain ⟨_, _, _, _, _, _, enough⟩ := stage
    omega
  | drawList k =>
    have two := b.two_le_left k
    obtain ⟨-, -, enough⟩ := stage
    omega
  | drawNode i node =>
    obtain ⟨_, _, _, _, _, _, enough⟩ := stage
    omega
  | wipe i =>
    obtain ⟨-, -, enough⟩ := stage
    omega

end LotusKit.Frame

import Mathlib.Data.List.Chain
import Mathlib.Algebra.BigOperators.Group.List.Basic
import Mathlib.Algebra.GroupWithZero.Nat
import Mathlib.Algebra.Ring.Int.Defs

/-! Run lengths. `expand` is the meaning of a list of runs; an accumulator that counts the
item it holds and puts a run out when another item comes loses nothing. -/

namespace LotusKit.Lib.RunLength

variable {α : Type*}

/-- Each item as often as its run says. -/
def expand (runs : List (α × Nat)) : List α := runs.flatMap fun run => List.replicate run.2 run.1

@[simp] theorem expand_nil : expand ([] : List (α × Nat)) = [] := rfl

@[simp] theorem expand_cons (run : α × Nat) (runs : List (α × Nat)) :
    expand (run :: runs) = List.replicate run.2 run.1 ++ expand runs := rfl

@[simp] theorem expand_append (runs more : List (α × Nat)) :
    expand (runs ++ more) = expand runs ++ expand more :=
  List.flatMap_append

theorem length_expand (runs : List (α × Nat)) : (expand runs).length = (runs.map Prod.snd).sum := by
  induction runs with
  | nil => rfl
  | cons run runs ih =>
    rw [expand_cons, List.length_append, List.length_replicate, ih, List.map_cons, List.sum_cons]

/-- Empty runs do not count. -/
theorem expand_filter (runs : List (α × Nat)) :
    expand (runs.filter fun run => 0 < run.2) = expand runs := by
  induction runs with
  | nil => rfl
  | cons run runs ih =>
    by_cases positive : 0 < run.2
    · rw [List.filter_cons_of_pos (by simpa using positive), expand_cons, expand_cons, ih]
    · have zero : run.2 = 0 := by omega
      rw [List.filter_cons_of_neg (by simpa using positive), expand_cons, ih, zero,
        List.replicate_zero, List.nil_append]

/-- A run is a stretch of the items. -/
theorem replicate_infix_expand {run : α × Nat} {runs : List (α × Nat)} (member : run ∈ runs) :
    List.replicate run.2 run.1 <:+: expand runs := by
  obtain ⟨before, after, rfl⟩ := List.append_of_mem member
  exact ⟨expand before, expand after, by simp⟩

theorem mem_expand {run : α × Nat} {runs : List (α × Nat)} (member : run ∈ runs)
    (positive : 0 < run.2) : run.1 ∈ expand runs := by
  apply (replicate_infix_expand member).subset
  exact List.mem_replicate.mpr ⟨Nat.ne_of_gt positive, rfl⟩

/-- Runs as long as they can be: none is empty, and the next one is of another item. -/
structure Proper (runs : List (α × Nat)) : Prop where
  positive : ∀ run ∈ runs, 0 < run.2
  differ : runs.IsChain fun run next => run.1 ≠ next.1

theorem Proper.tail {run : α × Nat} {runs : List (α × Nat)} (proper : Proper (run :: runs)) :
    Proper runs :=
  ⟨fun next member => proper.positive next (List.mem_cons_of_mem run member), proper.differ.tail⟩

/-- Nothing with the same meaning has fewer runs, or as many and other ones. -/
theorem Proper.eq_of_expand_eq {runs more : List (α × Nat)} (proper : Proper runs)
    (few : more.length ≤ runs.length) (same : expand more = expand runs) : more = runs := by
  induction more generalizing runs with
  | nil =>
    cases runs with
    | nil => rfl
    | cons run rest =>
      have some_ := proper.positive run List.mem_cons_self
      have length := congrArg List.length same
      rw [expand_nil, expand_cons, List.length_append, List.length_replicate, List.length_nil] at length
      omega
  | cons other more ih =>
    cases runs with
    | nil => exact absurd few (Nat.not_succ_le_zero _)
    | cons run rest =>
      obtain ⟨y, c⟩ := other
      obtain ⟨x, m⟩ := run
      have some_ : 0 < m := proper.positive (x, m) List.mem_cons_self
      simp only [List.length_cons] at few
      rw [expand_cons, expand_cons] at same
      simp only at same
      rcases Nat.eq_zero_or_pos c with rfl | positive
      · rw [List.replicate_zero, List.nil_append, ← expand_cons (x, m)] at same
        have equal := ih proper (by rw [List.length_cons]; omega) same
        have lengths := congrArg List.length equal
        rw [List.length_cons] at lengths
        omega
      · have first : y = x := by
          obtain ⟨c, rfl⟩ := Nat.exists_eq_succ_of_ne_zero (by omega : c ≠ 0)
          obtain ⟨m, rfl⟩ := Nat.exists_eq_succ_of_ne_zero (by omega : m ≠ 0)
          exact (List.cons.inj same).1
        subst first
        rcases Nat.lt_trichotomy c m with short | rfl | long
        · -- the rest would have to be a run of `y` and all of `rest`
          obtain ⟨d, rfl⟩ := Nat.exists_eq_add_of_lt short
          rw [Nat.add_assoc, List.replicate_add, List.append_assoc] at same
          have remaining := List.append_cancel_left same
          have proper' : Proper ((y, d + 1) :: rest) := by
            refine ⟨fun next member => ?_, ?_⟩
            · rcases List.mem_cons.mp member with rfl | later
              · exact Nat.succ_pos d
              · exact proper.positive next (List.mem_cons_of_mem _ later)
            · have differ := proper.differ
              cases rest with
              | nil => exact List.isChain_singleton _
              | cons next rest =>
                rw [List.isChain_cons_cons] at differ ⊢
                exact differ
          have equal := ih proper' (by rw [List.length_cons]; omega) remaining
          have lengths := congrArg List.length equal
          rw [List.length_cons] at lengths
          omega
        · rw [ih proper.tail (by omega) (List.append_cancel_left same)]
        · obtain ⟨d, rfl⟩ := Nat.exists_eq_add_of_lt long
          rw [Nat.add_assoc, List.replicate_add, List.append_assoc] at same
          have remaining := List.append_cancel_left same
          cases rest with
          | nil => cases remaining
          | cons next rest =>
            obtain ⟨z, k⟩ := next
            have filled : 0 < k := proper.tail.positive (z, k) List.mem_cons_self
            obtain ⟨k, rfl⟩ := Nat.exists_eq_succ_of_ne_zero (by omega : k ≠ 0)
            have differ := (List.isChain_cons_cons.mp proper.differ).1
            exact absurd (List.cons.inj remaining).1 differ

/-- The runs that are complete, and the item that is held, so many times by now. -/
structure Accumulator (α : Type*) where
  complete : List (α × Nat)
  held : α
  count : Nat

def Accumulator.expand (acc : Accumulator α) : List α :=
  RunLength.expand acc.complete ++ List.replicate acc.count acc.held

/-- The runs, with the one that is not complete yet. -/
def Accumulator.runs (acc : Accumulator α) : List (α × Nat) := acc.complete ++ [(acc.held, acc.count)]

theorem Accumulator.expand_runs (acc : Accumulator α) : RunLength.expand acc.runs = acc.expand := by
  simp [Accumulator.runs, Accumulator.expand]

variable [DecidableEq α]

/-- One more item. -/
def Accumulator.push (item : α) (acc : Accumulator α) : Accumulator α :=
  if item = acc.held then ⟨acc.complete, acc.held, acc.count + 1⟩
  else ⟨acc.complete ++ [(acc.held, acc.count)], item, 1⟩

/-- The item that is held goes on, or another one comes, for a number of times at once. -/
def Accumulator.hold (run : α × Nat) (acc : Accumulator α) : Accumulator α :=
  if run.1 = acc.held then ⟨acc.complete, acc.held, acc.count + run.2⟩
  else ⟨acc.complete ++ [(acc.held, acc.count)], run.1, run.2⟩

theorem Accumulator.expand_hold (run : α × Nat) (acc : Accumulator α) :
    (acc.hold run).expand = acc.expand ++ List.replicate run.2 run.1 := by
  by_cases same : run.1 = acc.held
  · rw [hold, if_pos same, Accumulator.expand, Accumulator.expand, List.replicate_add, same,
      List.append_assoc]
  · simp [hold, if_neg same, Accumulator.expand]

theorem Accumulator.expand_push (item : α) (acc : Accumulator α) :
    (acc.push item).expand = acc.expand ++ [item] :=
  acc.expand_hold (item, 1)

def Accumulator.pushAll (items : List α) (acc : Accumulator α) : Accumulator α :=
  items.foldl (fun acc item => acc.push item) acc

theorem Accumulator.expand_pushAll (items : List α) (acc : Accumulator α) :
    (acc.pushAll items).expand = acc.expand ++ items := by
  induction items generalizing acc with
  | nil => rw [List.append_nil]; rfl
  | cons item items ih =>
    calc ((acc.push item).pushAll items).expand
        = (acc.push item).expand ++ items := ih (acc.push item)
      _ = acc.expand ++ item :: items := by
        rw [acc.expand_push item, List.append_assoc, List.singleton_append]

def Accumulator.holdAll (runs : List (α × Nat)) (acc : Accumulator α) : Accumulator α :=
  runs.foldl (fun acc run => acc.hold run) acc

/-- Runs of which only the first may be empty. -/
structure Begun (runs : List (α × Nat)) : Prop where
  positive : ∀ run ∈ runs.tail, 0 < run.2
  differ : runs.IsChain fun run next => run.1 ≠ next.1

omit [DecidableEq α] in
/-- Without the empty one they are as long as they can be. -/
theorem Begun.proper {runs : List (α × Nat)} (begun : Begun runs) :
    Proper (runs.filter fun run => 0 < run.2) := by
  cases runs with
  | nil => exact ⟨List.forall_mem_nil _, .nil⟩
  | cons run rest =>
    obtain ⟨positive, differ⟩ := begun
    have all : rest.filter (fun run => 0 < run.2) = rest :=
      List.filter_eq_self.mpr fun next member => decide_eq_true (positive next member)
    by_cases some_ : 0 < run.2
    · rw [List.filter_cons_of_pos (by simpa using some_), all]
      exact ⟨List.forall_mem_cons.mpr ⟨some_, positive⟩, differ⟩
    · rw [List.filter_cons_of_neg (by simpa using some_), all]
      exact ⟨positive, differ.tail⟩

theorem Accumulator.differ_hold {acc : Accumulator α}
    (differ : acc.runs.IsChain fun run next => run.1 ≠ next.1) (run : α × Nat) :
    (acc.hold run).runs.IsChain fun run next => run.1 ≠ next.1 := by
  by_cases same : run.1 = acc.held
  · rw [hold, if_pos same]
    rw [Accumulator.runs, List.isChain_append] at differ ⊢
    refine ⟨differ.1, List.isChain_singleton _, fun run last next first => ?_⟩
    cases first
    exact differ.2.2 run last (acc.held, acc.count) rfl
  · rw [hold, if_neg same]
    rw [Accumulator.runs, List.isChain_append] at differ ⊢
    refine ⟨List.isChain_append.mpr differ, List.isChain_singleton _, fun run last next first => ?_⟩
    cases first
    rw [List.getLast?_append, List.getLast?_singleton] at last
    cases last
    exact Ne.symm same

theorem Accumulator.begun_hold {acc : Accumulator α} (begun : Begun acc.runs) {run : α × Nat}
    (some_ : 0 < run.2) : Begun (acc.hold run).runs := by
  obtain ⟨positive, differ⟩ := begun
  refine ⟨fun next member => ?_, acc.differ_hold differ run⟩
  rw [Accumulator.runs] at positive
  by_cases same : run.1 = acc.held
  · rw [hold, if_pos same, Accumulator.runs] at member
    cases complete : acc.complete with
    | nil =>
      rw [complete] at member
      cases member
    | cons first rest =>
      rw [complete, List.cons_append, List.tail_cons] at member positive
      rcases List.mem_append.mp member with before | last
      · exact positive next (List.mem_append_left _ before)
      · rw [List.mem_singleton.mp last]
        exact Nat.add_pos_right _ some_
  · rw [hold, if_neg same, Accumulator.runs, List.tail_append_of_ne_nil
      (List.append_ne_nil_of_right_ne_nil _ (List.cons_ne_nil _ _))] at member
    rcases List.mem_append.mp member with before | last
    · exact positive next before
    · rw [List.mem_singleton.mp last]
      exact some_

theorem Accumulator.begun_holdAll {acc : Accumulator α} (begun : Begun acc.runs) {runs : List (α × Nat)}
    (positive : ∀ run ∈ runs, 0 < run.2) : Begun (acc.holdAll runs).runs := by
  induction runs generalizing acc with
  | nil => exact begun
  | cons run runs ih =>
    obtain ⟨some_, rest⟩ := List.forall_mem_cons.mp positive
    exact ih (acc.begun_hold begun some_) rest

theorem Accumulator.proper_push {acc : Accumulator α} (proper : Proper acc.runs) (item : α) :
    Proper (acc.push item).runs := by
  obtain ⟨positive, differ⟩ := proper
  refine ⟨fun run member => ?_, acc.differ_hold differ (item, 1)⟩
  by_cases same : item = acc.held
  · rw [push, if_pos same] at member
    rcases List.mem_append.mp member with before | last
    · exact positive run (List.mem_append_left _ before)
    · rw [List.mem_singleton.mp last]
      exact Nat.succ_pos _
  · rw [push, if_neg same] at member
    rcases List.mem_append.mp member with before | last
    · exact positive run before
    · rw [List.mem_singleton.mp last]
      exact Nat.one_pos

theorem Accumulator.proper_pushAll {acc : Accumulator α} (proper : Proper acc.runs) (items : List α) :
    Proper (acc.pushAll items).runs := by
  induction items generalizing acc with
  | nil => exact proper
  | cons item items ih => exact ih (acc.proper_push proper item)

/-- Runs that are complete stay. -/
theorem Accumulator.complete_pushAll (items : List α) (acc : Accumulator α) :
    acc.complete <+: (acc.pushAll items).complete := by
  induction items generalizing acc with
  | nil => exact List.prefix_rfl
  | cons item items ih =>
    apply List.IsPrefix.trans _ (ih (acc.push item))
    unfold push
    split
    · exact List.prefix_rfl
    · exact List.prefix_append _ _

theorem Accumulator.count_push_le (item : α) (acc : Accumulator α) : (acc.push item).count ≤ acc.count + 1 := by
  unfold push
  split
  · exact Nat.le_refl _
  · exact Nat.le_add_left _ _

/-- An item that is held already only counts. -/
theorem Accumulator.pushAll_replicate (n : Nat) (acc : Accumulator α) :
    acc.pushAll (List.replicate n acc.held) = { acc with count := acc.count + n } := by
  induction n generalizing acc with
  | zero => rfl
  | succ n ih =>
    have next : acc.push acc.held = { acc with count := acc.count + 1 } := if_pos rfl
    have rest := ih { acc with count := acc.count + 1 }
    rw [List.replicate_succ, Accumulator.pushAll, List.foldl_cons, next]
    rw [Accumulator.pushAll] at rest
    rw [rest, Nat.add_right_comm, Nat.add_assoc]

end LotusKit.Lib.RunLength

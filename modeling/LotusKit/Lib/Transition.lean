import Mathlib.Data.List.Basic
import Mathlib.Logic.Function.Iterate
import Mathlib.Order.Basic

/-! Labelled transition systems: reachability, the invariant rule, and the rule that
turns a step condition which is both enough for a property and broken by every other
step into an equivalence about whole runs. The last section is about the special case
of a deterministic step, where a run is an iterate. -/

namespace LotusKit.Lib.Transition

structure System (State Action : Type*) where
  Start : State → Prop
  Step : State → Action → State → Prop

namespace System
variable {State Action : Type*} (sys : System State Action)

/-- Reached by steps that all meet `Ok`, a condition on the state before the step. -/
inductive ReachableUnder (Ok : State → Action → Prop) : State → Prop
  | start {s : State} : sys.Start s → ReachableUnder Ok s
  | step {s t : State} {a : Action} :
      ReachableUnder Ok s → Ok s a → sys.Step s a t → ReachableUnder Ok t

def Reachable : State → Prop := sys.ReachableUnder fun _ _ => True

variable {sys}

theorem Reachable.step {s t : State} {a : Action} (reached : sys.Reachable s)
    (step : sys.Step s a t) : sys.Reachable t :=
  ReachableUnder.step reached trivial step

theorem ReachableUnder.reachable {Ok : State → Action → Prop} {s : State}
    (reached : sys.ReachableUnder Ok s) : sys.Reachable s := by
  induction reached with
  | start begins => exact .start begins
  | step _ _ taken ih => exact ih.step taken

/-- The invariant rule: what holds at the start and is kept by every step that meets
`Ok` holds in every state reached by such steps. -/
theorem ReachableUnder.invariant {Ok : State → Action → Prop} {Inv : State → Prop}
    (atStart : ∀ s, sys.Start s → Inv s)
    (kept : ∀ s a t, Inv s → Ok s a → sys.Step s a t → Inv t)
    {s : State} (reached : sys.ReachableUnder Ok s) : Inv s := by
  induction reached with
  | start begins => exact atStart _ begins
  | step _ ok taken ih => exact kept _ _ _ ih ok taken

theorem Reachable.invariant {Inv : State → Prop} (atStart : ∀ s, sys.Start s → Inv s)
    (kept : ∀ s a t, Inv s → sys.Step s a t → Inv t) {s : State} (reached : sys.Reachable s) :
    Inv s :=
  ReachableUnder.invariant atStart (fun s a t inv _ taken => kept s a t inv taken) reached

variable (sys)

/-- A finite run: `length` steps, the `i`-th one from `state i` to `state (i + 1)`. -/
structure Run where
  length : Nat
  state : Nat → State
  action : Nat → Action
  start : sys.Start (state 0)
  step : ∀ i < length, sys.Step (state i) (action i) (state (i + 1))

variable {sys}

theorem Run.reachableUnder (run : sys.Run) {Ok : State → Action → Prop} (i : Nat)
    (within : i ≤ run.length) (met : ∀ j < i, Ok (run.state j) (run.action j)) :
    sys.ReachableUnder Ok (run.state i) := by
  induction i with
  | zero => exact .start run.start
  | succ i ih =>
    exact .step (ih (by omega) fun j before => met j (by omega)) (met i (by omega))
      (run.step i (by omega))

/-- When a step condition keeps a property and every step that breaks the condition
breaks the property, the property holds all along a run exactly when all its steps meet
the condition. -/
theorem Run.holds_iff (run : sys.Run) {Ok : State → Action → Prop} {Holds : State → Prop}
    (enough : ∀ s, sys.ReachableUnder Ok s → Holds s)
    (needed : ∀ s a t, sys.ReachableUnder Ok s → ¬Ok s a → sys.Step s a t → ¬Holds t) :
    (∀ i ≤ run.length, Holds (run.state i)) ↔
      ∀ i < run.length, Ok (run.state i) (run.action i) := by
  constructor
  · intro holds i
    induction i using Nat.strongRecOn with
    | ind i ih =>
      intro within
      by_contra broken
      have reached := run.reachableUnder i (by omega) fun j before => ih j before (by omega)
      exact needed _ _ _ reached broken (run.step i within) (holds (i + 1) (by omega))
  · intro met i within
    exact enough _ (run.reachableUnder i within fun j before => met j (by omega))

/-- What every step keeps unless something happens in it holds until that happens. -/
theorem Run.keeps_unless (run : sys.Run) {Keeps : State → Prop} {Happens : State → Action → Prop}
    (kept : ∀ s a t, sys.Reachable s → Keeps s → ¬Happens s a → sys.Step s a t → Keeps t)
    {i j : Nat} (order : i ≤ j) (within : j ≤ run.length) (begins : Keeps (run.state i)) :
    Keeps (run.state j) ∨ ∃ m, i ≤ m ∧ m < j ∧ Happens (run.state m) (run.action m) := by
  obtain ⟨n, rfl⟩ := Nat.exists_eq_add_of_le order
  induction n with
  | zero => exact .inl begins
  | succ n ih =>
    rcases ih (by omega) (by omega) with keeps | ⟨m, after, before, happens⟩
    · by_cases happens : Happens (run.state (i + n)) (run.action (i + n))
      · exact .inr ⟨i + n, by omega, by omega, happens⟩
      · have reached : sys.Reachable (run.state (i + n)) :=
          run.reachableUnder (i + n) (by omega) fun _ _ => trivial
        exact .inl (kept _ _ _ reached keeps happens (run.step (i + n) (by omega)))
    · exact .inr ⟨m, after, by omega, happens⟩

section Replay
variable [Inhabited Action] (enabled : Action → State → Bool) (perform : Action → State → State)

/-- Where the listed actions lead from `s`. -/
def performAll (actions : List Action) (s : State) : State :=
  actions.foldl (fun s a => perform a s) s

/-- Whether each of the listed actions can be taken when its turn comes. -/
def allEnabled : List Action → State → Bool
  | [], _ => true
  | a :: rest, s => enabled a s && allEnabled rest (perform a s)

theorem enabled_of_allEnabled (actions : List Action) (s : State)
    (can : allEnabled enabled perform actions s = true) (i : Nat) (within : i < actions.length) :
    enabled (actions.getD i default) (performAll perform (actions.take i) s) = true := by
  induction actions generalizing s i with
  | nil => exact absurd within (Nat.not_lt_zero i)
  | cons a rest ih =>
    simp only [allEnabled, Bool.and_eq_true] at can
    cases i with
    | zero => exact can.1
    | succ i => exact ih (perform a s) can.2 i (by simpa using within)

variable {enabled perform}

/-- The run that takes the listed actions from a start state. -/
def Run.replay (actions : List Action) (s : State) (start : sys.Start s)
    (sound : ∀ a s, enabled a s = true → sys.Step s a (perform a s))
    (can : allEnabled enabled perform actions s = true) : sys.Run where
  length := actions.length
  state i := performAll perform (actions.take i) s
  action i := actions.getD i default
  start := start
  step i within := by
    have next : performAll perform (actions.take (i + 1)) s =
        perform (actions.getD i default) (performAll perform (actions.take i) s) := by
      have item : actions[i] = actions.getD i default := by simp [within]
      rw [performAll, List.take_succ_eq_append_getElem within, List.foldl_append,
        List.foldl_cons, List.foldl_nil, item, performAll]
    rw [next]
    exact sound _ _ (enabled_of_allEnabled enabled perform actions s can i within)

end Replay

end System

section Iterate
variable {State : Type*} {f : State → State} {a b c : State}

/-- Some number of steps of a deterministic machine leads from the first state to the
second. -/
def Leads (f : State → State) (a b : State) : Prop := ∃ n, f^[n] a = b

theorem Leads.refl (a : State) : Leads f a a := ⟨0, rfl⟩

theorem Leads.trans (first : Leads f a b) (second : Leads f b c) : Leads f a c := by
  obtain ⟨m, rfl⟩ := first
  obtain ⟨n, rfl⟩ := second
  exact ⟨n + m, Function.iterate_add_apply f n m a⟩

theorem Leads.head (later : Leads f (f a) b) : Leads f a b := by
  obtain ⟨n, rfl⟩ := later
  exact ⟨n + 1, rfl⟩

/-- Two rest points that one state leads to are the same. -/
theorem Leads.unique (first : Leads f a b) (second : Leads f a c) (restB : f b = b)
    (restC : f c = c) : b = c := by
  obtain ⟨m, rfl⟩ := first
  obtain ⟨n, rfl⟩ := second
  rcases Nat.le_total m n with before | before
  · obtain ⟨k, rfl⟩ := Nat.exists_eq_add_of_le before
    rw [Nat.add_comm m k, Function.iterate_add_apply, Function.iterate_fixed restB]
  · obtain ⟨k, rfl⟩ := Nat.exists_eq_add_of_le before
    rw [Nat.add_comm n k, Function.iterate_add_apply, Function.iterate_fixed restC]

end Iterate

/-- What never gains in measure and loses some again and again comes to an end. -/
theorem ends_of_measure {State : Type*} {Live : Nat → State → Prop} {Ends : Prop} {Free : Nat → Prop}
    (measure : State → Nat)
    (step : ∀ n s, Live n s → Ends ∨ ∃ t, Live (n + 1) t ∧ measure t ≤ measure s ∧
      (Free n → measure t < measure s))
    (often : ∀ n, ∃ m, n ≤ m ∧ Free m) {n : Nat} {s : State} (live : Live n s) : Ends := by
  induction same : measure s using Nat.strongRecOn generalizing n s with
  | ind size ih =>
    obtain ⟨m, ahead, free⟩ := often n
    obtain ⟨wait, rfl⟩ := Nat.exists_eq_add_of_le ahead
    -- the next free step is `wait` steps away
    induction wait generalizing n s with
    | zero =>
      rcases step n s live with ends | ⟨t, liveT, -, less⟩
      · exact ends
      · exact ih (measure t) (same ▸ less free) liveT rfl
    | succ wait sooner =>
      rcases step n s live with ends | ⟨t, liveT, atMost, -⟩
      · exact ends
      · rcases Nat.lt_or_ge (measure t) size with less | atLeast
        · exact ih (measure t) less liveT rfl
        · refine sooner liveT (by omega) (by omega) ?_
          rwa [Nat.add_right_comm, Nat.add_assoc]

end LotusKit.Lib.Transition

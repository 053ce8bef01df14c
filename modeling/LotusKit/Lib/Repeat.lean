import Mathlib.Data.List.Basic

/-! Loops that are left from the inside, with the reason why they are left in the end. -/

namespace LotusKit.Lib.Repeat

/-- `while (true)`: the body goes on with a new state or leaves the loop with a result. -/
structure Loop (State Result : Type*) where
  body : State → State ⊕ Result
  size : State → Nat
  shrinks : ∀ s t, body s = .inl t → size t < size s

namespace Loop
variable {State Result : Type*}

def run (loop : Loop State Result) (s : State) : Result :=
  match _ : loop.body s with
  | .inl t => loop.run t
  | .inr r => r
termination_by loop.size s
decreasing_by exact loop.shrinks s t ‹_›

variable {loop : Loop State Result} {s t : State} {r : Result}

theorem run_leaves (leaves : loop.body s = .inr r) : loop.run s = r := by
  rw [run]
  split
  next t goesOn => cases leaves.symm.trans goesOn
  next r' left => exact (Sum.inr.inj (leaves.symm.trans left)).symm

theorem run_goesOn (goesOn : loop.body s = .inl t) : loop.run s = loop.run t := by
  rw [run]
  split
  next t' goesOn' => rw [Sum.inl.inj (goesOn.symm.trans goesOn')]
  next r leaves => cases goesOn.symm.trans leaves

/-- What holds when the loop is left, and before an iteration when it does after it, holds
of the loop. -/
theorem induct {P : State → Result → Prop} (leaves : ∀ s r, loop.body s = .inr r → P s r)
    (goesOn : ∀ s t, loop.body s = .inl t → P t (loop.run t) → P s (loop.run t)) (s : State) :
    P s (loop.run s) := by
  induction measured : loop.size s using Nat.strongRecOn generalizing s with
  | ind size ih =>
    cases taken : loop.body s with
    | inr r =>
      rw [run_leaves taken]
      exact leaves s r taken
    | inl t =>
      rw [run_goesOn taken]
      exact goesOn s t taken (ih _ (measured ▸ loop.shrinks s t taken) t rfl)

end Loop

section Leaves
variable {State Result : Type*} {body : State → State ⊕ Result} {s t : State} {r r' : Result}

/-- The loop with this body, started in `s`, is left with `r`. Nothing says that a loop is
left at all. -/
inductive Leaves (body : State → State ⊕ Result) : State → Result → Prop
  | now {s : State} {r : Result} : body s = .inr r → Leaves body s r
  | later {s t : State} {r : Result} : body s = .inl t → Leaves body t r → Leaves body s r

theorem Leaves.unique (first : Leaves body s r) (second : Leaves body s r') : r = r' := by
  induction first with
  | now left =>
    cases second with
    | now left' => exact Sum.inr.inj (left.symm.trans left')
    | later goesOn _ => cases left.symm.trans goesOn
  | later goesOn _ ih =>
    cases second with
    | now left => cases goesOn.symm.trans left
    | later goesOn' rest =>
      obtain rfl := Sum.inl.inj (goesOn.symm.trans goesOn')
      exact ih rest

/-- A loop that goes on as long as something holds, which holds again after that, goes on
forever. -/
theorem not_leaves_of_forever {Inv : State → Prop} (forever : ∀ s, Inv s → ∃ t, body s = .inl t ∧ Inv t)
    (inv : Inv s) : ¬Leaves body s r := by
  intro leaves
  induction leaves with
  | now left =>
    obtain ⟨t, goesOn, -⟩ := forever _ inv
    cases goesOn.symm.trans left
  | later goesOn _ ih =>
    obtain ⟨t, goesOn', inv'⟩ := forever _ inv
    obtain rfl := Sum.inl.inj (goesOn.symm.trans goesOn')
    exact ih inv'

/-- A loop that goes on with the same state goes on forever. -/
theorem not_leaves_of_fixed (fixed : body s = .inl s) : ¬Leaves body s r := by
  apply @not_leaves_of_forever _ _ _ _ _ (· = s) _ rfl
  rintro t rfl
  exact ⟨t, fixed, rfl⟩

/-- A loop that gets smaller as long as it goes on is left. -/
theorem leaves_of_shrinks {Inv : State → Prop} (size : State → Nat)
    (kept : ∀ s t, Inv s → body s = .inl t → Inv t ∧ size t < size s) (inv : Inv s) : ∃ r, Leaves body s r := by
  induction measured : size s using Nat.strongRecOn generalizing s with
  | ind n ih =>
    cases taken : body s with
    | inr r => exact ⟨r, .now taken⟩
    | inl t =>
      obtain ⟨inv', smaller⟩ := kept s t inv taken
      obtain ⟨r, leaves⟩ := ih (size t) (measured ▸ smaller) inv' rfl
      exact ⟨r, .later taken leaves⟩

/-- The states that an iteration of the loop starts in. -/
inductive Visits (body : State → State ⊕ Result) (s : State) : State → Prop
  | start : Visits body s s
  | next {t u : State} : Visits body s t → body t = .inl u → Visits body s u

theorem Visits.invariant {Inv : State → Prop} (kept : ∀ s t, Inv s → body s = .inl t → Inv t)
    (visits : Visits body s t) (inv : Inv s) : Inv t := by
  induction visits with
  | start => exact inv
  | next _ goesOn ih => exact kept _ _ ih goesOn

/-- The loop cut short after a number of iterations, to evaluate it. -/
def runFor (body : State → State ⊕ Result) : Nat → State → Option Result
  | 0, _ => none
  | fuel + 1, s =>
    match body s with
    | .inl t => runFor body fuel t
    | .inr r => some r

theorem leaves_of_runFor {fuel : Nat} (found : runFor body fuel s = some r) : Leaves body s r := by
  induction fuel generalizing s with
  | zero => cases found
  | succ fuel ih =>
    simp only [runFor] at found
    split at found
    next t goesOn => exact .later goesOn (ih found)
    next r' left => exact .now (left.trans (congrArg Sum.inr (Option.some.inj found)))

end Leaves

end LotusKit.Lib.Repeat

import Mathlib.Data.Nat.Count

/-! Counters that are set to a number when something happens, and go down by one with every tick. -/

namespace LotusKit.Lib

/-- A counter that is set to `value` when something fires, and goes out when it is cleared. What fires
does not make it smaller than the next tick would. -/
structure Countdown (counter : Nat → Nat) (fires clears ticks : Nat → Prop) (value : Nat → Nat) : Prop where
  start : counter 0 = 0
  cleared {n : Nat} : clears n → counter (n + 1) = 0
  fired {n : Nat} : fires n → ¬clears n → counter (n + 1) = value n
  ticked {n : Nat} : ¬fires n → ¬clears n → ticks n → counter (n + 1) = counter n - 1
  kept {n : Nat} : ¬fires n → ¬clears n → ¬ticks n → counter (n + 1) = counter n
  ticks_of_fires {n : Nat} : fires n → ticks n
  grows {n : Nat} : fires n → counter n ≤ value n + 1

namespace Countdown
variable {counter : Nat → Nat} {fires clears ticks : Nat → Prop} [DecidablePred ticks] {value : Nat → Nat}

/-- How far a counter is from zero says how many ticks ago it was set. -/
theorem lt_iff (counts : Countdown counter fires clears ticks value) (n d : Nat) :
    d < counter n ↔ ∃ m < n, fires m ∧ (∀ k, m ≤ k → k < n → ¬clears k) ∧
      Nat.count ticks n + d < Nat.count ticks (m + 1) + value m := by
  induction n generalizing d with
  | zero =>
    rw [counts.start]
    constructor
    · exact fun impossible => absurd impossible (Nat.not_lt_zero d)
    · rintro ⟨m, impossible, -⟩
      exact absurd impossible (Nat.not_lt_zero m)
  | succ n ih =>
    by_cases clear : clears n
    · rw [counts.cleared clear]
      constructor
      · exact fun impossible => absurd impossible (Nat.not_lt_zero d)
      · rintro ⟨m, before, -, lasts, -⟩
        exact absurd clear (lasts n (Nat.le_of_lt_succ before) (Nat.lt_succ_self n))
    · have extend {m : Nat} (before : m < n) : (∀ k, m ≤ k → k < n + 1 → ¬clears k) ↔ ∀ k, m ≤ k → k < n → ¬clears k := by
        constructor
        · exact fun lasts k from_m earlier => lasts k from_m (Nat.lt_succ_of_lt earlier)
        · intro lasts k from_m earlier
          obtain long_ago | rfl := Nat.lt_succ_iff_lt_or_eq.mp earlier
          · exact lasts k from_m long_ago
          · exact clear
      by_cases fire : fires n
      · rw [counts.fired fire clear]
        constructor
        · intro inside
          refine ⟨n, Nat.lt_succ_self n, fire, ?_, Nat.add_lt_add_left inside _⟩
          intro k from_n earlier
          obtain rfl := Nat.le_antisymm from_n (Nat.le_of_lt_succ earlier)
          exact clear
        · rintro ⟨m, before, fired, lasts, inside⟩
          rw [Nat.count_succ, if_pos (counts.ticks_of_fires fire)] at inside
          obtain earlier | rfl := Nat.lt_succ_iff_lt_or_eq.mp before
          · have above := (ih (d + 1)).mpr ⟨m, earlier, fired, (extend earlier).mp lasts, by omega⟩
            have grows := counts.grows fire
            omega
          · rw [Nat.count_succ, if_pos (counts.ticks_of_fires fire)] at inside
            omega
      · have counted : ∃ t, counter (n + 1) = counter n - t ∧ Nat.count ticks (n + 1) = Nat.count ticks n + t := by
          by_cases tick : ticks n
          · exact ⟨1, counts.ticked fire clear tick, by rw [Nat.count_succ, if_pos tick]⟩
          · exact ⟨0, counts.kept fire clear tick, by rw [Nat.count_succ, if_neg tick]⟩
        obtain ⟨t, counter_eq, count_eq⟩ := counted
        have later : d < counter n - t ↔ d + t < counter n := by omega
        rw [counter_eq, later, ih, count_eq]
        constructor
        · rintro ⟨m, before, fired, lasts, inside⟩
          exact ⟨m, Nat.lt_succ_of_lt before, fired, (extend before).mpr lasts, by omega⟩
        · rintro ⟨m, before, fired, lasts, inside⟩
          obtain earlier | rfl := Nat.lt_succ_iff_lt_or_eq.mp before
          · exact ⟨m, earlier, fired, (extend earlier).mp lasts, by omega⟩
          · exact absurd fired fire

end Countdown

/-- The same for a counter that is set to one number only, and that every step lets tick. -/
theorem lt_countdown_iff (counter : Nat → Nat) (fires : Nat → Prop) [DecidablePred fires] {k : Nat} (zero : counter 0 = 0)
    (tick : ∀ n, counter (n + 1) = (if fires n then k else counter n) - 1) (n d : Nat) :
    d < counter n ↔ ∃ m < n, fires m ∧ n + d < m + k := by
  have bounded (n : Nat) : counter n ≤ k - 1 := by
    induction n with
    | zero =>
      rw [zero]
      exact Nat.zero_le _
    | succ n ih =>
      rw [tick]
      split
      · exact Nat.le_refl _
      · exact (Nat.sub_le _ _).trans ih
  have counts : Countdown counter fires (fun _ => False) (fun _ => True) fun _ => k - 1 := {
    start := zero
    cleared := False.elim
    fired := fun fire _ => by rw [tick, if_pos fire]
    ticked := fun not_now _ _ => by rw [tick, if_neg not_now]
    kept := fun _ _ never => absurd trivial never
    ticks_of_fires := fun _ => trivial
    grows := fun {n} _ => (bounded n).trans (Nat.le_succ _) }
  rw [counts.lt_iff]
  refine exists_congr fun m => and_congr_right fun before => and_congr_right fun _ => ?_
  rw [Nat.count_true, Nat.count_true]
  constructor
  · exact fun inside => by omega
  · exact fun inside => ⟨fun _ _ _ => id, by omega⟩

end LotusKit.Lib

import LotusKit.Editor.Number

/-! Numbers without rounding: decimals of any length. Where a script has no more digits than a
double holds, they are the numbers of JavaScript. -/

namespace LotusKit.Editor

/-- `m * 10 ^ e` without the zeros at the end of `m`. -/
def stripZeros : (fuel m : Nat) → (e : Int) → Nat × Int
  | 0, m, e => (m, e)
  | fuel + 1, m, e => if m % 10 = 0 then stripZeros fuel (m / 10) (e + 1) else (m, e)

theorem stripZeros_spec {fuel m : Nat} (e : Int) (positive : 0 < m) (enough : m ≤ fuel) :
    (stripZeros fuel m e).1 % 10 ≠ 0 ∧
      ∃ k : Nat, m = (stripZeros fuel m e).1 * 10 ^ k ∧ (stripZeros fuel m e).2 = e + k := by
  induction fuel generalizing m e with
  | zero => omega
  | succ fuel ih =>
    unfold stripZeros
    by_cases zero : m % 10 = 0
    · rw [if_pos zero]
      obtain ⟨last, k, value, exponent⟩ := @ih (m / 10) (e + 1) (by omega) (by omega)
      refine ⟨last, k + 1, ?_, ?_⟩
      · have whole : m = m / 10 * 10 := by omega
        rw [Nat.pow_succ, ← Nat.mul_assoc, ← value]
        exact whole
      · rw [exponent]
        omega
    · rw [if_neg zero]
      exact ⟨zero, 0, by simp, by simp⟩

/-- There is one way to write a number without zeros at the end. -/
theorem eq_of_scaled {s s' j k : Nat} (last : s % 10 ≠ 0) (last' : s' % 10 ≠ 0)
    (same : s * 10 ^ j = s' * 10 ^ k) : s = s' ∧ j = k := by
  induction j generalizing k with
  | zero =>
    cases k with
    | zero => exact ⟨by omega, rfl⟩
    | succ k =>
      rw [Nat.pow_succ, ← Nat.mul_assoc] at same
      omega
  | succ j ih =>
    cases k with
    | zero =>
      rw [Nat.pow_succ, ← Nat.mul_assoc] at same
      omega
    | succ k =>
      rw [Nat.pow_succ, Nat.pow_succ, ← Nat.mul_assoc, ← Nat.mul_assoc] at same
      obtain ⟨digits, exponent⟩ := @ih k (by omega)
      exact ⟨digits, by omega⟩

namespace Shortest

def Proper : Shortest → Prop
  | finite _ digits _ => digits % 10 ≠ 0
  | _ => True

def ofDecimal (negative : Bool) (m : Nat) (e : Int) : Shortest :=
  if m = 0 then zero else finite negative (stripZeros m m e).1 (stripZeros m m e).2

theorem proper_ofDecimal (negative : Bool) (m : Nat) (e : Int) : (ofDecimal negative m e).Proper := by
  unfold ofDecimal
  split
  · trivial
  · exact (stripZeros_spec e (by omega) (Nat.le_refl m)).1

theorem ofDecimal_eq {m s k : Nat} (negative : Bool) (e : Int) (last : s % 10 ≠ 0) (value : m = s * 10 ^ k) :
    ofDecimal negative m e = finite negative s (e + k) := by
  have positive : 0 < m := by
    rw [value]
    exact Nat.mul_pos (by omega) (Nat.pow_pos (by decide))
  obtain ⟨last', k', value', exponent⟩ := stripZeros_spec e positive (Nat.le_refl m)
  obtain ⟨digits, rfl⟩ := eq_of_scaled last' last (value'.symm.trans value)
  rw [ofDecimal, if_neg (by omega), digits, exponent]

/-- `digits` with a sign, times `10 ^ n`. -/
def scaled (negative : Bool) (digits n : Nat) : Int :=
  let value : Int := digits * 10 ^ n
  if negative then -value else value

def add : Shortest → Shortest → Shortest
  | nan, _ | _, nan => nan
  | infinity negative, infinity negative' => if negative = negative' then infinity negative else nan
  | infinity negative, _ | _, infinity negative => infinity negative
  | zero, x | x, zero => x
  | finite negative s e, finite negative' s' e' =>
    let least := min e e'
    let sum := scaled negative s (e - least).toNat + scaled negative' s' (e' - least).toNat
    ofDecimal (sum < 0) sum.natAbs least

theorem proper_add {x y : Shortest} (left : x.Proper) (right : y.Proper) : (x.add y).Proper := by
  unfold add
  split
  · trivial
  · trivial
  · split
    · trivial
    · trivial
  · trivial
  · trivial
  · exact right
  · exact left
  · exact proper_ofDecimal _ _ _

theorem add_whole {s s' : Nat} {e e' : Int} (positive : 0 < s) (whole : 0 ≤ e) (whole' : 0 ≤ e') :
    ∃ t d, (finite false s e).add (finite false s' e') = finite false t d ∧ 0 ≤ d := by
  have value : ∃ sum : Nat, 0 < sum ∧ scaled false s (e - min e e').toNat +
      scaled false s' (e' - min e e').toNat = sum := by
    refine ⟨s * 10 ^ (e - min e e').toNat + s' * 10 ^ (e' - min e e').toNat, ?_, ?_⟩
    · exact Nat.add_pos_left (Nat.mul_pos positive (Nat.pow_pos (by decide))) _
    · simp [scaled]
  obtain ⟨sum, some_, value⟩ := value
  have unsigned : decide ((sum : Int) < 0) = false := decide_eq_false (by omega)
  obtain ⟨-, k, -, exponent⟩ := stripZeros_spec (min e e') some_ (Nat.le_refl sum)
  simp only [add, value, unsigned, Int.natAbs_natCast]
  rw [ofDecimal, if_neg (by omega)]
  refine ⟨_, _, rfl, ?_⟩
  rw [exponent]
  omega

end Shortest

/-- Numbers that are never rounded. -/
def decimals : Numbers where
  Number := { x : Shortest // x.Proper }
  decEq := inferInstance
  shortest := Subtype.val
  nan := ⟨.nan, trivial⟩
  infinity negative := ⟨.infinity negative, trivial⟩
  ofDecimal negative m e := ⟨.ofDecimal negative m e, Shortest.proper_ofDecimal negative m e⟩
  add x y := ⟨x.val.add y.val, Shortest.proper_add x.property y.property⟩
  digits_mod := by
    intro x negative s e shortest
    have proper := x.property
    rwa [shortest] at proper
  ofDecimal_scale := by
    intro negative m j e
    apply Subtype.ext
    by_cases zero : m = 0
    · rw [zero, Nat.zero_mul]
      rfl
    · obtain ⟨last, k, value, -⟩ := stripZeros_spec e (Nat.pos_of_ne_zero zero) (Nat.le_refl m)
      have scaled : m * 10 ^ j = (stripZeros m m e).1 * 10 ^ (k + j) := by
        rw [Nat.pow_add, ← Nat.mul_assoc, ← value]
      show Shortest.ofDecimal negative (m * 10 ^ j) e = Shortest.ofDecimal negative m (e + j)
      rw [Shortest.ofDecimal_eq negative e last scaled, Shortest.ofDecimal_eq negative (e + j) last value]
      congr 1
      omega
  ofDecimal_shortest := by
    intro x negative s e shortest
    have proper := x.property
    rw [shortest] at proper
    apply Subtype.ext
    have own := @Shortest.ofDecimal_eq s s 0 negative e proper (by simp)
    exact (own.trans (by simp)).trans shortest.symm
  ofDecimal_zero := by
    intro x negative e shortest
    exact Subtype.ext shortest.symm
  shortest_zero := fun _ _ => rfl
  add_whole := by
    intro x y s e s' e' left whole right whole'
    have proper := x.property
    rw [left] at proper
    have last : s % 10 ≠ 0 := proper
    left
    have sum := @Shortest.add_whole s s' e e' (by omega) whole whole'
    rwa [← left, ← right] at sum

end LotusKit.Editor

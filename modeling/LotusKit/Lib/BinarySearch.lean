import Mathlib.Data.List.Basic
import Mathlib.Tactic.Common

/-! Binary search over a list that is in order for the comparison with the key. -/

namespace LotusKit.Lib.BinarySearch
variable {α : Type*} (cmp : α → Ordering) (items : List α)

/-- Between two places, both included. -/
def searchFrom (a b : Nat) : Option Nat :=
  if a < b then
    let m := (a + b) / 2
    match items[m]?.map cmp with
    | some .eq => some m
    | some .lt => searchFrom (m + 1) b
    | _ => searchFrom a m
  else if items[a]?.map cmp = some .eq then some a
  else none
termination_by b - a

def binarySearch : Option Nat :=
  if items.length = 0 then none else searchFrom cmp items 0 (items.length - 1)

/-- What is less than the key stands in front, and what is greater behind. -/
structure InOrder : Prop where
  less : ∀ i j : Nat, i ≤ j → items[j]?.map cmp = some .lt → items[i]?.map cmp = some .lt
  greater : ∀ i j : Nat, i ≤ j → j < items.length → items[i]?.map cmp = some .gt → items[j]?.map cmp = some .gt

variable {cmp items}

theorem searchFrom_hits {a b i : Nat} (found : searchFrom cmp items a b = some i) :
    items[i]?.map cmp = some .eq := by
  induction a, b using searchFrom.induct cmp items with
  | case1 a b less m equal =>
    rw [searchFrom, if_pos less] at found
    simp only [equal, m] at found
    obtain rfl := Option.some.inj found
    exact equal
  | case2 a b less m before ih =>
    rw [searchFrom, if_pos less] at found
    simp only [before, m] at found
    exact ih found
  | case3 a b less m notEqual notBefore ih =>
    rw [searchFrom, if_pos less] at found
    apply ih
    revert found
    simp only [m] at notEqual notBefore ⊢
    exact id
  | case4 a b last equal =>
    rw [searchFrom, if_neg last, if_pos equal] at found
    obtain rfl := Option.some.inj found
    exact equal
  | case5 a b last notEqual =>
    rw [searchFrom, if_neg last, if_neg notEqual] at found
    cases found

theorem binarySearch_hits {i : Nat} (found : binarySearch cmp items = some i) : items[i]?.map cmp = some .eq := by
  unfold binarySearch at found
  split at found
  · cases found
  · exact searchFrom_hits found

/-- What is not there is not found, in order or not. -/
theorem binarySearch_eq_none (absent : ∀ item ∈ items, cmp item ≠ .eq) : binarySearch cmp items = none := by
  cases found : binarySearch cmp items with
  | none => rfl
  | some i =>
    obtain ⟨item, there, equal⟩ := Option.map_eq_some_iff.mp (binarySearch_hits found)
    exact absurd equal (absent item (List.mem_of_getElem? there))

theorem searchFrom_isSome (order : InOrder cmp items) {a b k : Nat} (low : a ≤ k) (high : k ≤ b)
    (there : items[k]?.map cmp = some .eq) : ∃ i, searchFrom cmp items a b = some i := by
  have inside : k < items.length := by
    by_contra outside
    rw [List.getElem?_eq_none (by omega)] at there
    cases there
  induction a, b using searchFrom.induct cmp items with
  | case1 a b less m equal =>
    rw [searchFrom, if_pos less]
    simp only [equal, m]
    exact ⟨_, rfl⟩
  | case2 a b less m before ih =>
    rw [searchFrom, if_pos less]
    simp only [before, m]
    apply ih _ high
    by_contra notBehind
    have isLess := order.less k m (by omega) before
    rw [there] at isLess
    cases isLess
  | case3 a b less m notEqual notBefore ih =>
    have inFront : k ≤ m := by
      by_contra later
      have middle : m < items.length := by omega
      have behind : items[m]?.map cmp = some .gt := by
        rw [List.getElem?_eq_getElem middle] at notEqual notBefore ⊢
        cases compared : cmp items[m] with
        | gt => rw [Option.map_some, compared]
        | eq => exact absurd (by rw [Option.map_some, compared]) notEqual
        | lt => exact absurd (by rw [Option.map_some, compared]) notBefore
      have isGreater := order.greater m k (by omega) inside behind
      rw [there] at isGreater
      cases isGreater
    obtain ⟨i, found⟩ := ih low inFront
    refine ⟨i, ?_⟩
    rw [searchFrom, if_pos less, ← found]
    simp only [m] at notEqual notBefore ⊢
  | case4 a b last equal =>
    rw [searchFrom, if_neg last, if_pos equal]
    exact ⟨_, rfl⟩
  | case5 a b last notEqual =>
    obtain rfl : k = a := by omega
    exact absurd there notEqual

/-- In order, what is there is found. -/
theorem exists_binarySearch (order : InOrder cmp items) {item : α} (there : item ∈ items)
    (equal : cmp item = .eq) : ∃ i, binarySearch cmp items = some i := by
  obtain ⟨k, inside, rfl⟩ := List.mem_iff_getElem.mp there
  rw [binarySearch, if_neg (by omega)]
  apply searchFrom_isSome order (Nat.zero_le k) (by omega : k ≤ items.length - 1)
  rw [List.getElem?_eq_getElem inside, Option.map_some, equal]

end LotusKit.Lib.BinarySearch

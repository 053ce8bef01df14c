import Mathlib.Data.List.Sort

/-! A table in the order of its keys, and the first place in it that is not below a key. -/

namespace LotusKit.Lib.SortedTable
variable {α κ : Type*} [LinearOrder κ] (key : α → κ) (table : List α) (k : κ)

/-- Among `count` places from `first` on. -/
def lowerBoundFrom (first count : Nat) : Nat :=
  if count = 0 then first
  else
    match table[first + count / 2]? with
    | some item =>
      if key item < k then lowerBoundFrom (first + count / 2 + 1) (count - (count / 2 + 1))
      else lowerBoundFrom first (count / 2)
    | none => first
termination_by count

def lowerBound : Nat := lowerBoundFrom key table k 0 table.length

variable {key table k}

/-- The place parts the items below the key from the others. -/
structure Parts (key : α → κ) (table : List α) (k : κ) (place : Nat) : Prop where
  inside : place ≤ table.length
  below : ∀ i item, table[i]? = some item → (key item < k ↔ i < place)

theorem le_of_places (sorted : table.Pairwise fun a b => key a ≤ key b) {i j : Nat} (ordered : i ≤ j) {a b : α}
    (here : table[i]? = some a) (there : table[j]? = some b) : key a ≤ key b := by
  obtain ⟨_, rfl⟩ := List.getElem?_eq_some_iff.mp here
  obtain ⟨_, rfl⟩ := List.getElem?_eq_some_iff.mp there
  rcases Nat.eq_or_lt_of_le ordered with rfl | less
  · exact le_refl _
  · exact List.pairwise_iff_getElem.mp sorted i j _ _ less

theorem parts_lowerBoundFrom (sorted : table.Pairwise fun a b => key a ≤ key b) {first count : Nat}
    (inside : first + count ≤ table.length) (before : ∀ i item, table[i]? = some item → i < first → key item < k)
    (behind : ∀ i item, table[i]? = some item → first + count ≤ i → ¬key item < k) :
    Parts key table k (lowerBoundFrom key table k first count) := by
  induction first, count using lowerBoundFrom.induct key table k with
  | case1 first =>
    rw [lowerBoundFrom, if_pos rfl]
    refine ⟨inside, fun i item found => ⟨fun less => ?_, before i item found⟩⟩
    by_contra past
    exact behind i item found (by omega) less
  | case2 first count some_ item found less ih =>
    rw [lowerBoundFrom, if_neg some_, found]
    simp only [if_pos less]
    refine ih (by omega) (fun i other there earlier => ?_) (fun i other there later => behind i other there (by omega))
    exact lt_of_le_of_lt (le_of_places sorted (by omega) there found) less
  | case3 first count some_ item found notLess ih =>
    rw [lowerBoundFrom, if_neg some_, found]
    simp only [if_neg notLess]
    refine ih (by omega) before (fun i other there later less => notLess ?_)
    exact lt_of_le_of_lt (le_of_places sorted later found there) less
  | case4 first count some_ missing =>
    have past := List.getElem?_eq_none_iff.mp missing
    omega

theorem parts_lowerBound (sorted : table.Pairwise fun a b => key a ≤ key b) (k : κ) :
    Parts key table k (lowerBound key table k) := by
  refine parts_lowerBoundFrom sorted (Nat.le_of_eq (Nat.zero_add _)) (fun _ _ _ none_ => absurd none_ (Nat.not_lt_zero _)) ?_
  intro i item found past
  have inside := (List.getElem?_eq_some_iff.mp found).1
  omega

/-- The item at that place is the first one that is not below the key. -/
theorem getElem?_lowerBound (sorted : table.Pairwise fun a b => key a ≤ key b) (k : κ) :
    table[lowerBound key table k]? = table.find? fun item => k ≤ key item := by
  obtain ⟨inside, below⟩ := parts_lowerBound sorted k
  generalize lowerBound key table k = place at inside below
  cases found : table[place]? with
  | none =>
    have past := List.getElem?_eq_none_iff.mp found
    symm
    rw [List.find?_eq_none]
    intro item member
    obtain ⟨i, there⟩ := List.mem_iff_getElem?.mp member
    have less := (below i item there).mpr (Nat.lt_of_lt_of_le (List.getElem?_eq_some_iff.mp there).1 past)
    simpa using less
  | some item =>
    obtain ⟨within, here⟩ := List.getElem?_eq_some_iff.mp found
    symm
    rw [List.find?_eq_some_iff_getElem]
    refine ⟨?_, place, within, here, fun j earlier => ?_⟩
    · have notLess := mt (below place item found).mp (Nat.lt_irrefl place)
      simpa using notLess
    · have less := (below j table[j] (List.getElem?_eq_getElem (by omega))).mpr earlier
      simpa using less

/-- When no two neighbours have one key, no two items have. -/
theorem strict_of_neighbours (sorted : table.Pairwise fun a b => key a ≤ key b)
    (apart : (table.map key).IsChain (· ≠ ·)) : table.Pairwise fun a b => key a < key b := by
  have chain : table.IsChain fun a b => key a < key b := by
    induction table with
    | nil => exact List.IsChain.nil
    | cons a table ih =>
      cases table with
      | nil => exact List.IsChain.singleton a
      | cons b table =>
        rw [List.map_cons, List.map_cons, List.isChain_cons_cons] at apart
        obtain ⟨first, rest⟩ := List.pairwise_cons.mp sorted
        rw [List.isChain_cons_cons]
        exact ⟨lt_of_le_of_ne (first b List.mem_cons_self) apart.1, ih rest apart.2⟩
  have trans_ : Trans (fun a b => key a < key b) (fun a b => key a < key b) fun a b => key a < key b := ⟨lt_trans⟩
  exact chain.pairwise

/-- In a table of different keys, the search finds the item with the key, if there is one. -/
theorem getElem?_lowerBound_of_mem (strict : table.Pairwise fun a b => key a < key b) {item : α} (member : item ∈ table) :
    table[lowerBound key table (key item)]? = some item := by
  rw [getElem?_lowerBound (strict.imp le_of_lt)]
  obtain ⟨front, back, rfl⟩ := List.append_of_mem member
  have before := (List.pairwise_append.mp strict).2.2
  rw [List.find?_append, List.find?_eq_none.mpr, Option.none_or, List.find?_cons_of_pos (by simp)]
  intro other earlier
  simpa using before other earlier item List.mem_cons_self

theorem eq_of_key (strict : table.Pairwise fun a b => key a < key b) {a b : α} (here : a ∈ table) (there : b ∈ table)
    (same : key a = key b) : a = b := by
  have found := getElem?_lowerBound_of_mem strict here
  rw [same, getElem?_lowerBound_of_mem strict there] at found
  exact (Option.some.inj found).symm

end LotusKit.Lib.SortedTable

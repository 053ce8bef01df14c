import Mathlib.Data.List.Nodup
import Mathlib.Tactic.Common

/-! A dictionary that keeps the order in which its keys came. -/

namespace LotusKit.Lib

abbrev Dict (Key Value : Type) := List (Key × Value)

namespace Dict
variable {Key Value : Type} [DecidableEq Key]

def get (d : Dict Key Value) (k : Key) : Option Value := (d.find? fun entry => entry.1 = k).map Prod.snd

/-- A value for a key that has none. -/
def setDefault (d : Dict Key Value) (k : Key) (v : Value) : Dict Key Value :=
  if (d.get k).isSome then d else d ++ [(k, v)]

/-- The values are mutable. -/
def modify (d : Dict Key Value) (k : Key) (f : Value → Value) : Dict Key Value :=
  d.map fun entry => if entry.1 = k then (entry.1, f entry.2) else entry

/-- The value of a key from now on; a new key comes last. -/
def set (d : Dict Key Value) (k : Key) (v : Value) : Dict Key Value := (d.setDefault k v).modify k fun _ => v

variable (d : Dict Key Value) (k k' : Key) (v : Value) (f : Value → Value)

theorem get_append (e : Dict Key Value) : get (d ++ e) k = (get d k).or (get e k) := by
  unfold get
  rw [List.find?_append, Option.map_or]

theorem get_setDefault : (d.setDefault k v).get k' = if k' = k then some ((d.get k).getD v) else d.get k' := by
  unfold setDefault
  by_cases same : k' = k
  · subst same
    rw [if_pos rfl]
    cases found : d.get k' with
    | some value => rw [Option.isSome_some, if_pos rfl, found, Option.getD_some]
    | none =>
      rw [Option.isSome_none, if_neg Bool.false_ne_true, get_append, found, Option.none_or, Option.getD_none, get,
        List.find?_cons_of_pos (by simp), Option.map_some]
  · rw [if_neg same]
    split
    · rfl
    · have missing : get [(k, v)] k' = none := by
        rw [get, List.find?_cons_of_neg (by simp [Ne.symm same]), List.find?_nil, Option.map_none]
      rw [get_append, missing, Option.or_none]

theorem get_modify : (d.modify k f).get k' = if k' = k then (d.get k).map f else d.get k' := by
  induction d with
  | nil => exact (ite_self _).symm
  | cons entry d ih =>
    have changed : (if entry.1 = k then (entry.1, f entry.2) else entry).1 = entry.1 := by
      split <;> rfl
    unfold modify get at ih ⊢
    rw [List.map_cons, List.find?_cons, List.find?_cons, List.find?_cons, changed]
    by_cases own : entry.1 = k'
    · simp only [own, decide_true, Option.map_some]
      by_cases same : k' = k
      · subst same
        simp only [if_true, decide_true, Option.map_some]
      · simp only [if_neg same]
    · simp only [own, decide_false]
      rw [ih]
      by_cases same : k' = k
      · subst same
        simp only [if_true, own, decide_false]
      · simp only [if_neg same]

theorem isSome_get : (d.get k).isSome ↔ k ∈ d.map Prod.fst := by
  unfold get
  rw [Option.isSome_map, List.find?_isSome, List.mem_map]
  simp only [decide_eq_true_eq]

theorem keys_modify : (d.modify k f).map Prod.fst = d.map Prod.fst := by
  unfold modify
  rw [List.map_map]
  apply List.map_congr_left
  intro entry _
  exact (apply_ite Prod.fst _ _ _).trans (ite_self _)

/-- No key comes twice. -/
theorem nodup_setDefault (nodup : (d.map Prod.fst).Nodup) : ((d.setDefault k v).map Prod.fst).Nodup := by
  unfold setDefault
  split
  case isTrue => exact nodup
  case isFalse missing =>
    rw [List.map_append, List.nodup_append]
    refine ⟨nodup, List.nodup_singleton k, ?_⟩
    intro a inside b new same
    rw [List.map_singleton, List.mem_singleton] at new
    rw [same, new] at inside
    exact missing ((isSome_get d k).mpr inside)

theorem get_of_mem {d : Dict Key Value} {k : Key} {v : Value} (nodup : (d.map Prod.fst).Nodup) (inside : (k, v) ∈ d) :
    d.get k = some v := by
  induction d with
  | nil => cases inside
  | cons entry d ih =>
    rw [List.map_cons, List.nodup_cons] at nodup
    unfold get at ih ⊢
    rw [List.find?_cons]
    rcases List.mem_cons.mp inside with rfl | later
    · simp only [decide_true, Option.map_some]
    · have apart : entry.1 ≠ k := fun same => nodup.1 (same ▸ List.mem_map_of_mem later)
      simp only [decide_eq_false apart]
      exact ih nodup.2 later

theorem get_set : (d.set k v).get k' = if k' = k then some v else d.get k' := by
  rw [set, get_modify, get_setDefault, get_setDefault]
  by_cases same : k' = k
  · simp [same]
  · simp [same]

theorem nodup_set (nodup : (d.map Prod.fst).Nodup) : ((d.set k v).map Prod.fst).Nodup := by
  rw [set, keys_modify]
  exact nodup_setDefault d k v nodup

section Ext
variable {d e : Dict Key Value} {k : Key} {v : Value}

theorem mem_of_get (found : d.get k = some v) : (k, v) ∈ d := by
  obtain ⟨⟨k', v'⟩, here, rfl⟩ := Option.map_eq_some_iff.mp found
  have own := List.find?_some here
  obtain rfl : k' = k := of_decide_eq_true own
  exact List.mem_of_find?_eq_some here

theorem get_eq_some (nodup : (d.map Prod.fst).Nodup) : d.get k = some v ↔ (k, v) ∈ d :=
  ⟨mem_of_get, get_of_mem nodup⟩

theorem get_perm (nodup : (d.map Prod.fst).Nodup) (perm : d.Perm e) (k : Key) : d.get k = e.get k := by
  have nodup' : (e.map Prod.fst).Nodup := (perm.map Prod.fst).nodup_iff.mp nodup
  ext v
  rw [get_eq_some nodup, get_eq_some nodup', perm.mem_iff]

/-- Dictionaries of the same content differ in their order only. -/
theorem perm_of_get (nodup : (d.map Prod.fst).Nodup) (nodup' : (e.map Prod.fst).Nodup)
    (same : ∀ k, d.get k = e.get k) : d.Perm e := by
  rw [List.perm_ext_iff_of_nodup nodup.of_map nodup'.of_map]
  rintro ⟨k, v⟩
  rw [← get_eq_some nodup, ← get_eq_some nodup', same]

end Ext

end Dict

end LotusKit.Lib

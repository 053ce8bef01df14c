import Mathlib.Data.List.Nodup
import Mathlib.Logic.Function.Basic

/-! Items that go through stages in a row. A stage takes an item or passes it on, and may change with
either. It does not matter whether each item goes through all stages before the next one comes, or all
items go through each stage before they come to the next one. -/

namespace LotusKit.Lib.Stages

variable {σ α : Type} (step : σ → α → σ × Option α)

/-- One item through all stages. -/
def offer : List σ → α → List σ × Option α
  | [], a => ([], some a)
  | s :: stages, a =>
    match step s a with
    | (s', none) => (s' :: stages, none)
    | (s', some b) => (s' :: (offer stages b).1, (offer stages b).2)

/-- All items through one stage. -/
def through : σ → List α → σ × List α
  | s, [] => (s, [])
  | s, a :: items => ((through (step s a).1 items).1, (step s a).2.toList ++ (through (step s a).1 items).2)

/-- All items through one stage after the other. -/
def stagewise : List σ → List α → List σ × List α
  | [], items => ([], items)
  | s :: stages, items =>
    ((through step s items).1 :: (stagewise stages (through step s items).2).1,
      (stagewise stages (through step s items).2).2)

theorem offer_of_passed {s s' : σ} {a b : α} (passed : step s a = (s', some b)) (stages : List σ) :
    offer step (s :: stages) a = (s' :: (offer step stages b).1, (offer step stages b).2) := by
  rw [offer, passed]

theorem offer_of_taken {s s' : σ} {a : α} (taken : step s a = (s', none)) (stages : List σ) :
    offer step (s :: stages) a = (s' :: stages, none) := by
  rw [offer, taken]

theorem stagewise_nil (stages : List σ) : stagewise step stages [] = (stages, []) := by
  induction stages with
  | nil => rfl
  | cons s stages ih => rw [stagewise, through, ih]

/-- The first item may go through all stages before the others come. -/
theorem stagewise_cons (stages : List σ) (a : α) (items : List α) :
    stagewise step stages (a :: items) =
      ((stagewise step (offer step stages a).1 items).1,
        (offer step stages a).2.toList ++ (stagewise step (offer step stages a).1 items).2) := by
  induction stages generalizing a items with
  | nil => rfl
  | cons s stages ih =>
    rw [stagewise, through]
    cases stepped : step s a with
    | mk s' passed =>
      cases passed with
      | none =>
        rw [offer_of_taken step stepped, stagewise]
        rfl
      | some b =>
        rw [offer_of_passed step stepped, stagewise]
        dsimp only
        rw [Option.toList_some, List.singleton_append, ih]

theorem stagewise_append (front back : List σ) (items : List α) :
    stagewise step (front ++ back) items =
      ((stagewise step front items).1 ++ (stagewise step back (stagewise step front items).2).1,
        (stagewise step back (stagewise step front items).2).2) := by
  induction front generalizing items with
  | nil => rfl
  | cons s front ih =>
    rw [List.cons_append, stagewise, ih]
    rfl

theorem length_stagewise (stages : List σ) (items : List α) :
    (stagewise step stages items).1.length = stages.length := by
  induction stages generalizing items with
  | nil => rfl
  | cons s stages ih => rw [stagewise, List.length_cons, List.length_cons, ih]

/-- A stage gets what those before it leave. -/
theorem stagewise_at {ι : Type} {front back : List ι} {i : ι} {state final : ι → σ} {items : List α}
    (run : (front ++ i :: back).map final = (stagewise step ((front ++ i :: back).map state) items).1) :
    final i = (through step (state i) (stagewise step (front.map state) items).2).1 := by
  rw [List.map_append, List.map_append, stagewise_append, List.map_cons, List.map_cons, stagewise] at run
  have lengths : (front.map final).length = (stagewise step (front.map state) items).1.length := by
    rw [length_stagewise, List.length_map, List.length_map]
  exact (List.cons.inj (List.append_inj run lengths).2).1

theorem foldl_offer (stages : List σ) (items : List α) :
    items.foldl (fun stages a => (offer step stages a).1) stages = (stagewise step stages items).1 := by
  induction items generalizing stages with
  | nil => rw [List.foldl_nil, stagewise_nil]
  | cons a items ih =>
    calc (a :: items).foldl (fun stages a => (offer step stages a).1) stages
        = items.foldl (fun stages a => (offer step stages a).1) (offer step stages a).1 := rfl
      _ = (stagewise step (offer step stages a).1 items).1 := ih _
      _ = (stagewise step stages (a :: items)).1 := by rw [stagewise_cons]

/-- An item that no stage takes. -/
theorem offer_passed {a : α} {next : σ → σ} (passed : ∀ s, step s a = (next s, some a)) (stages : List σ) :
    offer step stages a = (stages.map next, some a) := by
  induction stages with
  | nil => rfl
  | cons s stages ih => rw [offer_of_passed step (passed s), ih, List.map_cons]

/-- An item that leaves a stage as it is, or is taken there, goes to the first stage that takes it. -/
theorem offer_find {ι : Type} [DecidableEq ι] {a : α} {takes : σ → Bool} {fill : σ → σ}
    (stepped : ∀ s, step s a = if takes s then (fill s, none) else (s, some a))
    {order : List ι} (nodup : order.Nodup) (state : ι → σ) :
    (offer step (order.map state) a).1 =
      order.map ((order.find? fun i => takes (state i)).elim state
        fun i => Function.update state i (fill (state i))) := by
  induction order with
  | nil => rfl
  | cons i order ih =>
    obtain ⟨fresh, nodup⟩ := List.nodup_cons.mp nodup
    rw [List.map_cons, List.find?_cons]
    have steps := stepped (state i)
    cases taken : takes (state i) with
    | true =>
      rw [taken, if_pos rfl] at steps
      rw [offer_of_taken step steps, Option.elim_some, List.map_cons, Function.update_self]
      refine congrArg (fill (state i) :: ·) (List.map_congr_left fun j here => ?_)
      have apart : j ≠ i := fun same => fresh (same ▸ here)
      rw [Function.update_of_ne apart]
    | false =>
      rw [taken, if_neg Bool.false_ne_true] at steps
      rw [offer_of_passed step steps, ih nodup, List.map_cons]
      cases found : order.find? fun i => takes (state i) with
      | none => rfl
      | some j =>
        have apart : i ≠ j := fun same => fresh (same ▸ List.mem_of_find?_eq_some found)
        rw [Option.elim_some, Function.update_of_ne apart]

end LotusKit.Lib.Stages

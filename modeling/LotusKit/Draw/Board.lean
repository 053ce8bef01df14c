import LotusKit.Draw.Toasts
import Mathlib.Data.Set.BooleanAlgebra
import Mathlib.Order.CompletePartialOrder

/-! The toasts as a board of shown texts, and that the array and its heap follow it. -/

namespace LotusKit.Draw
open LotusKit.Lib

/-- A text that is shown, with the frames that are left of it. -/
structure Shown where
  node : Nat
  text : Nat
  ttlFrames : Nat
  buf : String

def Shown.tick (x : Shown) : Option Shown :=
  if x.ttlFrames = 0 then none else some { x with ttlFrames := x.ttlFrames - 1 }

def Shown.events (x : Shown) : List Event :=
  if x.ttlFrames = 0 then [.free x.text, .free x.node] else [.pprintf x.node x.buf]

abbrev Board := Fin MAX_TOASTS → Option Shown

namespace Board
variable (b : Board)

def owned : Set Nat := {a | ∃ i x, b i = some x ∧ (a = x.node ∨ a = x.text)}

def eventsAt (i : Fin MAX_TOASTS) : List Event := (b i).elim [] Shown.events

def drawToast (i : Fin MAX_TOASTS) : Board := Function.update b i ((b i).bind Shown.tick)

def drawToasts : Board := fun i => (b i).bind Shown.tick

/-- The slots are drawn one after the other. -/
theorem foldl_drawToast {slots : List (Fin MAX_TOASTS)} (nodup : slots.Nodup) (i : Fin MAX_TOASTS) :
    slots.foldl drawToast b i = if i ∈ slots then (b i).bind Shown.tick else b i := by
  induction slots generalizing b with
  | nil => exact (if_neg List.not_mem_nil).symm
  | cons j slots ih =>
    rw [List.nodup_cons] at nodup
    rw [List.foldl_cons, ih _ nodup.2]
    by_cases same : i = j
    · rw [same, if_neg nodup.1, if_pos List.mem_cons_self, drawToast, Function.update_self]
    · simp only [List.mem_cons, same, false_or, drawToast, Function.update_of_ne same]

theorem foldl_finRange : (List.finRange MAX_TOASTS).foldl drawToast b = b.drawToasts := by
  funext i
  rw [foldl_drawToast b (List.nodup_finRange _), if_pos (List.mem_finRange i)]
  rfl

variable {b}

theorem owned_put {i : Fin MAX_TOASTS} (unused : b i = none) {x : Shown} :
    owned (Function.update b i (some x)) = {x.node, x.text} ∪ b.owned := by
  ext a
  constructor
  · rintro ⟨j, y, there, leads⟩
    by_cases same : j = i
    · rw [same, Function.update_self, Option.some.injEq] at there
      subst there
      exact .inl leads
    · rw [Function.update_of_ne same] at there
      exact .inr ⟨j, y, there, leads⟩
  · rintro (leads | ⟨j, y, there, leads⟩)
    · exact ⟨i, x, Function.update_self _ _ _, leads⟩
    · have other : j ≠ i := by
        rintro rfl
        rw [unused] at there
        cases there
      exact ⟨j, y, by rw [Function.update_of_ne other, there], leads⟩

end Board

/-- The array and its heap show the board, and `lost` is what nothing leads to. -/
structure Shows (s : TextWriter) (b : Board) (lost : Set Nat) : Prop where
  toasts : ∀ i, s.toasts i = (b i).map Shown.node
  nodes : ∀ i x, b i = some x →
    s.debugDrawerInternalHeap.cells x.node = some (.node ⟨some x.text, none, x.ttlFrames⟩)
  texts : ∀ i x, b i = some x → s.debugDrawerInternalHeap.cells x.text = some (.text x.buf)
  apart : ∀ i j x y, b i = some x → b j = some y → x.node = y.node ∨ x.text = y.text → i = j
  live : s.debugDrawerInternalHeap.live = b.owned ∪ lost
  lostApart : Disjoint b.owned lost

namespace Shows
variable {s : TextWriter} {b : Board} {lost : Set Nat} (shows : Shows s b lost)

include shows

theorem node_ne_text {i j : Fin MAX_TOASTS} {x y : Shown} (there : b i = some x) (there' : b j = some y) :
    x.node ≠ y.text := by
  intro same
  have node := shows.nodes i x there
  rw [same, shows.texts j y there'] at node
  cases node

theorem node_eq {i : Fin MAX_TOASTS} {x : Shown} (there : b i = some x) :
    s.node x.node = some ⟨some x.text, none, x.ttlFrames⟩ := by
  rw [TextWriter.node, shows.nodes i x there]

theorem text_eq {i : Fin MAX_TOASTS} {x : Shown} (there : b i = some x) : s.text x.text = some x.buf := by
  rw [TextWriter.text, shows.texts i x there]

theorem node_live {i : Fin MAX_TOASTS} {x : Shown} (there : b i = some x) :
    x.node ∈ s.debugDrawerInternalHeap.live := Heap.mem_live_of_cells (shows.nodes i x there)

theorem text_live {i : Fin MAX_TOASTS} {x : Shown} (there : b i = some x) :
    x.text ∈ s.debugDrawerInternalHeap.live := Heap.mem_live_of_cells (shows.texts i x there)

theorem reachable_eq : s.reachable = b.owned := by
  ext a
  constructor
  · rintro ⟨i, node, toast, leads⟩
    rw [shows.toasts] at toast
    obtain ⟨x, there, rfl⟩ := Option.map_eq_some_iff.mp toast
    rw [shows.node_eq there] at leads
    refine ⟨i, x, there, leads.imp_right ?_⟩
    rintro ⟨value, own, text⟩
    obtain rfl := Option.some.inj own
    exact (Option.some.inj text).symm
  · rintro ⟨i, x, there, leads⟩
    refine ⟨i, x.node, by rw [shows.toasts, there, Option.map_some], leads.imp_right ?_⟩
    rintro rfl
    exact ⟨_, shows.node_eq there, rfl⟩

/-- Nothing is lost exactly if every live allocation is reached. -/
theorem live_eq_reachable_iff : s.debugDrawerInternalHeap.live = s.reachable ↔ lost = ∅ := by
  rw [shows.reachable_eq, shows.live]
  constructor
  · intro same
    have within : lost ⊆ b.owned := Set.union_eq_left.mp same
    exact Set.subset_empty_iff.mp fun a isLost => Set.disjoint_left.mp shows.lostApart (within isLost) isLost
  · rintro rfl
    exact Set.union_empty _

/-- The others have neither its node nor its text. -/
theorem others {i j : Fin MAX_TOASTS} {x y : Shown} (there : b i = some x) (there' : b j = some y) (other : j ≠ i) :
    (y.node ≠ x.node ∧ y.node ≠ x.text) ∧ y.text ≠ x.node ∧ y.text ≠ x.text := by
  refine ⟨⟨?_, shows.node_ne_text there' there⟩, (shows.node_ne_text there there').symm, ?_⟩
  · exact fun same => other (shows.apart j i y x there' there (.inl same))
  · exact fun same => other (shows.apart j i y x there' there (.inr same))

theorem mem_owned_remove {i : Fin MAX_TOASTS} {x : Shown} (there : b i = some x) (a : Nat) :
    a ∈ Board.owned (Function.update b i none) ↔ a ∈ b.owned ∧ a ≠ x.text ∧ a ≠ x.node := by
  constructor
  · rintro ⟨j, y, there', leads⟩
    have other : j ≠ i := by
      rintro rfl
      rw [Function.update_self] at there'
      cases there'
    rw [Function.update_of_ne other] at there'
    obtain ⟨node, text⟩ := shows.others there there' other
    refine ⟨⟨j, y, there', leads⟩, ?_⟩
    rcases leads with rfl | rfl
    · exact ⟨node.2, node.1⟩
    · exact ⟨text.2, text.1⟩
  · rintro ⟨⟨j, y, there', leads⟩, notText, notNode⟩
    have other : j ≠ i := by
      rintro rfl
      rw [there, Option.some.injEq] at there'
      subst there'
      exact leads.elim notNode notText
    exact ⟨j, y, by rw [Function.update_of_ne other, there'], leads⟩

/-- The toast of a slot is taken away. -/
theorem remove {i : Fin MAX_TOASTS} {x : Shown} (there : b i = some x) {heap : Heap Cell}
    (cells : ∀ a, a ≠ x.text → a ≠ x.node → heap.cells a = s.debugDrawerInternalHeap.cells a)
    (live : heap.live = (s.debugDrawerInternalHeap.live \ {x.text}) \ {x.node}) :
    Shows ⟨Function.update s.toasts i none, heap⟩ (Function.update b i none) lost where
  toasts j := by
    by_cases same : j = i
    · simp only [same, Function.update_self, Option.map_none]
    · simp only [Function.update_of_ne same, shows.toasts]
  nodes j y there' := by
    by_cases same : j = i
    · rw [same, Function.update_self] at there'
      cases there'
    · rw [Function.update_of_ne same] at there'
      obtain ⟨node, -⟩ := shows.others there there' same
      exact (cells _ node.2 node.1).trans (shows.nodes j y there')
  texts j y there' := by
    by_cases same : j = i
    · rw [same, Function.update_self] at there'
      cases there'
    · rw [Function.update_of_ne same] at there'
      obtain ⟨-, text⟩ := shows.others there there' same
      exact (cells _ text.2 text.1).trans (shows.texts j y there')
  apart j k y z there' there'' := by
    by_cases same : j = i
    · rw [same, Function.update_self] at there'
      cases there'
    · by_cases same' : k = i
      · rw [same', Function.update_self] at there''
        cases there''
      · rw [Function.update_of_ne same] at there'
        rw [Function.update_of_ne same'] at there''
        exact shows.apart j k y z there' there''
  live := by
    ext a
    have notLost : a ∈ lost → a ≠ x.text ∧ a ≠ x.node := by
      intro isLost
      constructor
      · rintro rfl
        exact Set.disjoint_left.mp shows.lostApart ⟨i, x, there, .inr rfl⟩ isLost
      · rintro rfl
        exact Set.disjoint_left.mp shows.lostApart ⟨i, x, there, .inl rfl⟩ isLost
    rw [live, shows.live, Set.mem_union, shows.mem_owned_remove there]
    simp only [Set.mem_sdiff, Set.mem_union, Set.mem_singleton_iff]
    tauto
  lostApart := by
    rw [Set.disjoint_left]
    intro a own
    exact Set.disjoint_left.mp shows.lostApart ((shows.mem_owned_remove there a).mp own).1

/-- A frame less is left of the toast of a slot. -/
theorem redraw {i : Fin MAX_TOASTS} {x : Shown} (there : b i = some x) {heap : Heap Cell} {ttlFrames : Nat}
    (own : heap.cells x.node = some (.node ⟨some x.text, none, ttlFrames⟩))
    (cells : ∀ a, a ≠ x.node → heap.cells a = s.debugDrawerInternalHeap.cells a)
    (live : heap.live = s.debugDrawerInternalHeap.live) :
    Shows ⟨s.toasts, heap⟩ (Function.update b i (some { x with ttlFrames := ttlFrames })) lost := by
  have before {j : Fin MAX_TOASTS} {y : Shown}
      (there' : Function.update b i (some { x with ttlFrames := ttlFrames }) j = some y) :
      ∃ y', b j = some y' ∧ y'.node = y.node ∧ y'.text = y.text ∧ y'.buf = y.buf := by
    by_cases same : j = i
    · rw [same, Function.update_self, Option.some.injEq] at there'
      subst there'
      exact ⟨x, same ▸ there, rfl, rfl, rfl⟩
    · rw [Function.update_of_ne same] at there'
      exact ⟨y, there', rfl, rfl, rfl⟩
  have ownedSame : Board.owned (Function.update b i (some { x with ttlFrames := ttlFrames })) = b.owned := by
    ext a
    constructor
    · rintro ⟨j, y, there', leads⟩
      obtain ⟨y', there'', node, text, -⟩ := before there'
      rw [← node, ← text] at leads
      exact ⟨j, y', there'', leads⟩
    · rintro ⟨j, y, there', leads⟩
      by_cases same : j = i
      · rw [same, there, Option.some.injEq] at there'
        subst there'
        exact ⟨i, _, Function.update_self _ _ _, leads⟩
      · exact ⟨j, y, by rw [Function.update_of_ne same, there'], leads⟩
  constructor
  · intro j
    by_cases same : j = i
    · simp only [same, Function.update_self, shows.toasts, there, Option.map_some]
    · simp only [Function.update_of_ne same, shows.toasts]
  · intro j y there'
    by_cases same : j = i
    · rw [same, Function.update_self, Option.some.injEq] at there'
      subst there'
      exact own
    · rw [Function.update_of_ne same] at there'
      obtain ⟨node, -⟩ := shows.others there there' same
      exact (cells _ node.1).trans (shows.nodes j y there')
  · intro j y there'
    obtain ⟨y', there'', -, text, buf⟩ := before there'
    rw [← text, ← buf]
    exact (cells _ (shows.node_ne_text there there'').symm).trans (shows.texts j y' there'')
  · intro j k y z there' there'' same
    obtain ⟨y', first, node, text, -⟩ := before there'
    obtain ⟨z', second, node', text', -⟩ := before there''
    rw [← node, ← text, ← node', ← text'] at same
    exact shows.apart j k y' z' first second same
  · rw [live, ownedSame, shows.live]
  · rw [ownedSame]
    exact shows.lostApart

/-- One round of the loop. -/
theorem drawToast_eq (events : List Event) (i : Fin MAX_TOASTS) :
    ∃ s', TextWriter.drawToast (s, events) i = some (s', events ++ b.eventsAt i) ∧ Shows s' (b.drawToast i) lost ∧
      s'.debugDrawerInternalHeap.fresh = s.debugDrawerInternalHeap.fresh := by
  have toast := shows.toasts i
  cases there : b i with
  | none =>
    rw [there, Option.map_none] at toast
    refine ⟨s, ?_, ?_, rfl⟩
    · simp only [TextWriter.drawToast, toast, Board.eventsAt, there, Option.elim_none, List.append_nil]
    · rw [Board.drawToast, there, Option.bind_none, ← there, Function.update_eq_self]
      exact shows
  | some x =>
    rw [there, Option.map_some] at toast
    have node := shows.node_eq there
    by_cases expired : x.ttlFrames = 0
    · obtain ⟨heap, freed, cells, live, fresh⟩ := Heap.free_eq (shows.text_live there)
      have nodeLive : x.node ∈ heap.live := by
        rw [live]
        exact ⟨shows.node_live there, shows.node_ne_text there there⟩
      obtain ⟨heap', freed', cells', live', fresh'⟩ := Heap.free_eq nodeLive
      refine ⟨⟨Function.update s.toasts i none, heap'⟩, ?_, ?_, fresh'.trans fresh⟩
      · simp only [TextWriter.drawToast, toast, node, Option.bind_eq_bind, Option.bind_some, expired, if_true, freed,
          freed', Board.eventsAt, there, Option.elim_some, Shown.events]
        rfl
      · rw [Board.drawToast, there, Option.bind_some, Shown.tick, if_pos expired]
        apply shows.remove there
        · exact fun a notText notNode => (cells' a notNode).trans (cells a notText)
        · rw [live', live]
    · obtain ⟨heap, written, own, cells, live, fresh⟩ :=
        Heap.write_eq (c := .node ⟨some x.text, none, x.ttlFrames - 1⟩) (shows.node_live there)
      refine ⟨⟨s.toasts, heap⟩, ?_, ?_, fresh⟩
      · simp only [TextWriter.drawToast, toast, node, Option.bind_eq_bind, Option.bind_some, expired, if_false, written,
          shows.text_eq there, Option.map_none, Option.toList_none, List.append_nil, Board.eventsAt, there,
          Option.elim_some, Shown.events]
        rfl
      · rw [Board.drawToast, there, Option.bind_some, Shown.tick, if_neg expired]
        exact shows.redraw there own cells live

theorem foldlM_drawToast (slots : List (Fin MAX_TOASTS)) (nodup : slots.Nodup) (events : List Event) :
    ∃ s', slots.foldlM TextWriter.drawToast (s, events) = some (s', events ++ slots.flatMap b.eventsAt) ∧
      Shows s' (slots.foldl Board.drawToast b) lost ∧
      s'.debugDrawerInternalHeap.fresh = s.debugDrawerInternalHeap.fresh := by
  induction slots generalizing s b events with
  | nil => exact ⟨s, by rw [List.flatMap_nil, List.append_nil]; rfl, shows, rfl⟩
  | cons i slots ih =>
    rw [List.nodup_cons] at nodup
    obtain ⟨s', drawn, shows', fresh⟩ := shows.drawToast_eq events i
    obtain ⟨s'', rest, shows'', fresh'⟩ := ih shows' nodup.2 (events ++ b.eventsAt i)
    -- the slots behind are still as they were
    have later : slots.flatMap (b.drawToast i).eventsAt = slots.flatMap b.eventsAt := by
      apply List.flatMap_congr
      intro j within
      have other : j ≠ i := fun same => nodup.1 (same ▸ within)
      rw [Board.eventsAt, Board.drawToast, Function.update_of_ne other, Board.eventsAt]
    rw [later, List.append_assoc] at rest
    refine ⟨s'', ?_, shows'', fresh'.trans fresh⟩
    rw [List.foldlM_cons, drawn, List.flatMap_cons]
    exact rest

theorem drawToasts_eq : ∃ s', s.drawToasts = some (s', (List.finRange MAX_TOASTS).flatMap b.eventsAt) ∧
    Shows s' b.drawToasts lost ∧ s'.debugDrawerInternalHeap.fresh = s.debugDrawerInternalHeap.fresh := by
  obtain ⟨s', drawn, shows', fresh⟩ := shows.foldlM_drawToast _ (List.nodup_finRange MAX_TOASTS) []
  rw [Board.foldl_finRange] at shows'
  exact ⟨s', drawn, shows', fresh⟩

/-- The toast gets a slot, and its node and text belong to it. -/
theorem put {i : Fin MAX_TOASTS} (unused : b i = none) {heap : Heap Cell} {x : Shown}
    (node : heap.cells x.node = some (.node ⟨some x.text, none, x.ttlFrames⟩))
    (text : heap.cells x.text = some (.text x.buf))
    (cells : ∀ a ∈ s.debugDrawerInternalHeap.live, heap.cells a = s.debugDrawerInternalHeap.cells a)
    (fresh : x.node ∉ s.debugDrawerInternalHeap.live ∧ x.text ∉ s.debugDrawerInternalHeap.live)
    (live : heap.live = {x.node, x.text} ∪ s.debugDrawerInternalHeap.live) :
    Shows ⟨Function.update s.toasts i (some x.node), heap⟩ (Function.update b i (some x)) lost := by
  have before {j : Fin MAX_TOASTS} {y : Shown} (there : Function.update b i (some x) j = some y) :
      j = i ∧ y = x ∨ j ≠ i ∧ b j = some y := by
    by_cases same : j = i
    · rw [same, Function.update_self, Option.some.injEq] at there
      exact .inl ⟨same, there.symm⟩
    · rw [Function.update_of_ne same] at there
      exact .inr ⟨same, there⟩
  have owned := Board.owned_put (x := x) unused
  constructor
  · intro j
    by_cases same : j = i
    · simp only [same, Function.update_self, Option.map_some]
    · simp only [Function.update_of_ne same, shows.toasts]
  · intro j y there
    rcases before there with ⟨-, rfl⟩ | ⟨-, there⟩
    · exact node
    · exact (cells _ (shows.node_live there)).trans (shows.nodes j y there)
  · intro j y there
    rcases before there with ⟨-, rfl⟩ | ⟨-, there⟩
    · exact text
    · exact (cells _ (shows.text_live there)).trans (shows.texts j y there)
  · intro j k y z there there' same
    rcases before there with ⟨own, rfl⟩ | ⟨-, old⟩
    · rcases before there' with ⟨own', -⟩ | ⟨-, old⟩
      · rw [own, own']
      · rcases same with same | same
        · exact absurd (same ▸ shows.node_live old) fresh.1
        · exact absurd (same ▸ shows.text_live old) fresh.2
    · rcases before there' with ⟨-, rfl⟩ | ⟨-, old'⟩
      · rcases same with same | same
        · exact absurd (same ▸ shows.node_live old) fresh.1
        · exact absurd (same ▸ shows.text_live old) fresh.2
      · exact shows.apart j k y z old old' same
  · rw [live, owned, shows.live, Set.union_assoc]
  · rw [owned, Set.disjoint_left]
    rintro a (new | own) isLost
    · have isLive : a ∈ s.debugDrawerInternalHeap.live := by
        rw [shows.live]
        exact .inr isLost
      rcases new with rfl | rfl
      · exact fresh.1 isLive
      · exact fresh.2 isLive
    · exact Set.disjoint_left.mp shows.lostApart own isLost

theorem unusedToast_eq {i : Fin MAX_TOASTS} (found : s.unusedToast = some i) : b i = none := by
  unfold TextWriter.unusedToast at found
  have isNone := List.find?_some found
  simp only [shows.toasts, Option.isNone_map] at isNone
  exact Option.isNone_iff_eq_none.mp isNone

/-- An accepted toast. -/
theorem toastf_eq (unused : ∃ i, s.toasts i = none) (ttlFrames : Nat) (buf : String) :
    ∃ s' i, b i = none ∧ s.toastf ttlFrames buf = some s' ∧
      Shows s' (Function.update b i
        (some ⟨s.debugDrawerInternalHeap.fresh, s.debugDrawerInternalHeap.fresh + 1, ttlFrames, buf⟩)) lost ∧
      s'.debugDrawerInternalHeap.fresh = s.debugDrawerInternalHeap.fresh + 2 := by
  have some_ : s.unusedToast.isSome = true := by
    obtain ⟨i, unused⟩ := unused
    rw [TextWriter.unusedToast, List.find?_isSome]
    exact ⟨i, List.mem_finRange i, Option.isNone_iff_eq_none.mpr unused⟩
  obtain ⟨i, found⟩ := Option.isSome_iff_exists.mp some_
  let first := s.debugDrawerInternalHeap.alloc (.node ⟨none, none, ttlFrames⟩)
  let second := first.alloc (.text buf)
  have nodeFirst : s.debugDrawerInternalHeap.fresh ∈ first.live := Heap.mem_live_of_cells Heap.cells_alloc_self
  have nodeSecond : s.debugDrawerInternalHeap.fresh ∈ second.live := by
    rw [Heap.live_alloc]
    exact .inr nodeFirst
  obtain ⟨heap, written, own, cells, live, fresh⟩ := Heap.write_eq
    (c := .node ⟨some (s.debugDrawerInternalHeap.fresh + 1), none, ttlFrames⟩) nodeSecond
  refine ⟨⟨Function.update s.toasts i (some s.debugDrawerInternalHeap.fresh), heap⟩, i, shows.unusedToast_eq found,
    ?_, ?_, fresh⟩
  · have value : (⟨Function.update s.toasts i (some s.debugDrawerInternalHeap.fresh), first⟩ : TextWriter).node
        s.debugDrawerInternalHeap.fresh = some ⟨none, none, ttlFrames⟩ := by
      rw [TextWriter.node]
      simp only [first, Heap.cells_alloc_self]
    simp only [TextWriter.toastf, TextWriter.appendNewToastNode, found]
    simp only [first] at value
    rw [value]
    exact congrArg (fun heap => heap.bind fun heap => some
      (⟨Function.update s.toasts i (some s.debugDrawerInternalHeap.fresh), heap⟩ : TextWriter)) written
  · apply shows.put (x := ⟨s.debugDrawerInternalHeap.fresh, s.debugDrawerInternalHeap.fresh + 1, ttlFrames, buf⟩)
      (shows.unusedToast_eq found) own
    · rw [cells _ (Nat.succ_ne_self _)]
      exact Heap.cells_alloc_self
    · intro a isLive
      have old := Heap.lt_fresh isLive
      have inFirst : a ∈ first.live := by
        rw [Heap.live_alloc]
        exact .inr isLive
      rw [cells a (by omega), Heap.cells_alloc_other inFirst, Heap.cells_alloc_other isLive]
    · exact ⟨Heap.fresh_not_mem_live le_rfl, Heap.fresh_not_mem_live (Nat.le_succ _)⟩
    · rw [live, Heap.live_alloc, Heap.live_alloc, Heap.fresh_alloc]
      ext a
      simp only [Set.mem_insert_iff, Set.mem_union, Set.mem_singleton_iff]
      tauto

/-- A refused toast leaves its node. -/
theorem toastf_refused (full : ∀ i, s.toasts i ≠ none) (ttlFrames : Nat) (buf : String) :
    ∃ s', s.toastf ttlFrames buf = some s' ∧ Shows s' b (insert s.debugDrawerInternalHeap.fresh lost) ∧
      s'.debugDrawerInternalHeap.fresh = s.debugDrawerInternalHeap.fresh + 1 := by
  have none_ : s.unusedToast = none := by
    rw [TextWriter.unusedToast, List.find?_eq_none]
    exact fun i _ isNone => full i (Option.isNone_iff_eq_none.mp isNone)
  refine ⟨⟨s.toasts, s.debugDrawerInternalHeap.alloc (.node ⟨none, none, ttlFrames⟩)⟩, ?_, ?_, rfl⟩
  · simp only [TextWriter.toastf, TextWriter.appendNewToastNode, none_]
  · constructor
    · exact shows.toasts
    · exact fun i x there => (Heap.cells_alloc_other (shows.node_live there)).trans (shows.nodes i x there)
    · exact fun i x there => (Heap.cells_alloc_other (shows.text_live there)).trans (shows.texts i x there)
    · exact shows.apart
    · rw [Heap.live_alloc, shows.live, Set.union_insert]
    · rw [Set.disjoint_insert_right]
      refine ⟨fun own => ?_, shows.lostApart⟩
      apply Heap.fresh_not_mem_live (le_refl s.debugDrawerInternalHeap.fresh)
      rw [shows.live]
      exact .inl own

end Shows

end LotusKit.Draw

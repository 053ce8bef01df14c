import LotusKit.Draw.Board
import LotusKit.Lib.Transition

/-! What a toast takes of the heap is given back after its last frame, as long as no toast
is refused. -/

namespace LotusKit.Draw
open LotusKit.Lib

def toastSystem : Transition.System TextWriter Op where
  Start s := s = TextWriter.start
  Step s op t := s.step op = some t

/-- A toast finds a slot. -/
def Accepts (s : TextWriter) : Op → Prop
  | .toastf _ _ => ∃ i, s.toasts i = none
  | .drawToasts => True

theorem shows_start : Shows TextWriter.start (fun _ => none) ∅ where
  toasts _ := rfl
  nodes _ _ there := by cases there
  texts _ _ there := by cases there
  apart _ _ _ _ there := by cases there
  live := by
    ext a
    constructor
    · intro isLive
      exact absurd isLive (Heap.fresh_not_mem_live (Nat.zero_le a))
    · rintro (⟨i, x, there, -⟩ | isLost)
      · cases there
      · exact absurd isLost (Set.notMem_empty a)
  lostApart := Set.disjoint_empty _

/-- No step uses a dead allocation, and each loses at most what it refuses. -/
theorem step_eq {s : TextWriter} {b : Board} {lost : Set Nat} (shows : Shows s b lost) (op : Op) :
    ∃ t b' lost', s.step op = some t ∧ Shows t b' lost' ∧ (Accepts s op → lost' = lost) ∧
      (¬ Accepts s op → lost'.Nonempty) := by
  cases op with
  | drawToasts =>
    obtain ⟨t, drawn, shows', -⟩ := shows.drawToasts_eq
    refine ⟨t, _, lost, ?_, shows', fun _ => rfl, fun refused => absurd trivial refused⟩
    rw [TextWriter.step, drawn, Option.map_some]
  | toastf ttlFrames buf =>
    by_cases accepts : ∃ i, s.toasts i = none
    · obtain ⟨t, i, -, put, shows', -⟩ := shows.toastf_eq accepts ttlFrames buf
      exact ⟨t, _, lost, put, shows', fun _ => rfl, fun refused => absurd accepts refused⟩
    · obtain ⟨t, refused, shows', -⟩ := shows.toastf_refused (not_exists.mp accepts) ttlFrames buf
      exact ⟨t, b, _, refused, shows', fun accepted => absurd accepted accepts, fun _ => Set.insert_nonempty _ _⟩

theorem exists_shows {s : TextWriter} (reached : toastSystem.Reachable s) : ∃ b lost, Shows s b lost := by
  apply reached.invariant
  · rintro _ rfl
    exact ⟨_, _, shows_start⟩
  · rintro s op t ⟨b, lost, shows⟩ taken
    obtain ⟨t', b', lost', step, shows', -⟩ := step_eq shows op
    obtain rfl : t = t' := Option.some.inj (taken.symm.trans step)
    exact ⟨b', lost', shows'⟩

theorem exists_shows_empty {s : TextWriter} (reached : toastSystem.ReachableUnder Accepts s) :
    ∃ b, Shows s b ∅ := by
  apply reached.invariant
  · rintro _ rfl
    exact ⟨_, shows_start⟩
  · rintro s op t ⟨b, shows⟩ accepts taken
    obtain ⟨t', b', lost', step, shows', same, -⟩ := step_eq shows op
    obtain rfl : t = t' := Option.some.inj (taken.symm.trans step)
    rw [same accepts] at shows'
    exact ⟨b', shows'⟩

section Count
variable {α β : Type*} [DecidableEq β] {f : α → List β} {e : β}

theorem count_flatMap_of_only {l : List α} (nodup : l.Nodup) {i : α} (within : i ∈ l)
    (only : ∀ j ∈ l, j ≠ i → e ∉ f j) : (l.flatMap f).count e = (f i).count e := by
  induction l with
  | nil => cases within
  | cons j l ih =>
    rw [List.nodup_cons] at nodup
    rw [List.flatMap_cons, List.count_append]
    by_cases same : j = i
    · subst same
      have rest : e ∉ l.flatMap f := by
        intro there
        obtain ⟨k, within, there⟩ := List.mem_flatMap.mp there
        exact only k (List.mem_cons_of_mem _ within) (fun equal => nodup.1 (equal ▸ within)) there
      rw [List.count_eq_zero_of_not_mem rest, Nat.add_zero]
    · rw [List.count_eq_zero_of_not_mem (only j List.mem_cons_self same), Nat.zero_add]
      apply ih nodup.2
      · exact (List.mem_cons.mp within).resolve_left (Ne.symm same)
      · exact fun k within => only k (List.mem_cons_of_mem _ within)

end Count

/-- A toast after `drawn` frames: what is left of it, or that it is gone. -/
inductive Stage (s : TextWriter) (b : Board) (x : Shown) (drawn : Nat) : Prop
  | shown (i : Fin MAX_TOASTS) (left : drawn ≤ x.ttlFrames)
      (there : b i = some { x with ttlFrames := x.ttlFrames - drawn })
  | gone (after : x.ttlFrames < drawn) (node : x.node ∉ b.owned) (text : x.text ∉ b.owned)
      (older : x.node < s.debugDrawerInternalHeap.fresh ∧ x.text < s.debugDrawerInternalHeap.fresh)

/-- The events of a draw about a toast. -/
structure Told (events : List Event) (x : Shown) (drawn : Nat) : Prop where
  shown : events.count (.pprintf x.node x.buf) = if drawn < x.ttlFrames then 1 else 0
  node : events.count (.free x.node) = if drawn = x.ttlFrames then 1 else 0
  text : events.count (.free x.text) = if drawn = x.ttlFrames then 1 else 0

theorem mem_events {y : Shown} {e : Event} (there : e ∈ y.events) :
    e = .pprintf y.node y.buf ∨ e = .free y.text ∨ e = .free y.node := by
  unfold Shown.events at there
  split at there
  · rcases List.mem_cons.mp there with rfl | there
    · exact .inr (.inl rfl)
    · exact .inr (.inr (List.mem_singleton.mp there))
  · exact .inl (List.mem_singleton.mp there)

theorem mem_eventsAt {b : Board} {j : Fin MAX_TOASTS} {e : Event} (there : e ∈ b.eventsAt j) :
    ∃ y, b j = some y ∧ e ∈ y.events := by
  unfold Board.eventsAt at there
  cases shown : b j with
  | none =>
    rw [shown] at there
    cases there
  | some y =>
    rw [shown] at there
    exact ⟨y, rfl, there⟩

/-- A text of the next board was there, and is about the same allocations. -/
theorem drawToasts_before {b : Board} {j : Fin MAX_TOASTS} {y : Shown} (there : b.drawToasts j = some y) :
    ∃ y', b j = some y' ∧ y'.node = y.node ∧ y'.text = y.text := by
  obtain ⟨y', there', ticked⟩ := Option.bind_eq_some_iff.mp there
  unfold Shown.tick at ticked
  split at ticked
  · cases ticked
  · rw [← Option.some.inj ticked]
    exact ⟨y', there', rfl, rfl⟩

namespace Stage
variable {s t : TextWriter} {b : Board} {lost : Set Nat} {x : Shown} {drawn : Nat} (shows : Shows s b lost)
  (stage : Stage s b x drawn)

include shows stage

theorem told : Told ((List.finRange MAX_TOASTS).flatMap b.eventsAt) x drawn := by
  have all := List.nodup_finRange MAX_TOASTS
  cases stage with
  | shown i left there =>
    -- only the slot of the toast tells of it
    have only {e : Event} (about : e = .pprintf x.node x.buf ∨ e = .free x.text ∨ e = .free x.node) :
        ((List.finRange MAX_TOASTS).flatMap b.eventsAt).count e = (b.eventsAt i).count e := by
      apply count_flatMap_of_only all (List.mem_finRange i)
      intro j _ other within
      obtain ⟨y, there', within⟩ := mem_eventsAt within
      obtain ⟨⟨node, crossed⟩, crossed', text⟩ := shows.others there there' other
      rcases mem_events within with rfl | rfl | rfl
      · rcases about with same | same | same
        · exact node (Event.pprintf.inj same).1
        · cases same
        · cases same
      · rcases about with same | same | same
        · cases same
        · exact text (Event.free.inj same)
        · exact crossed' (Event.free.inj same)
      · rcases about with same | same | same
        · cases same
        · exact crossed (Event.free.inj same)
        · exact node (Event.free.inj same)
    have apart := shows.node_ne_text there there
    have events : b.eventsAt i =
        if drawn = x.ttlFrames then [.free x.text, .free x.node] else [.pprintf x.node x.buf] := by
      rw [Board.eventsAt, there, Option.elim_some, Shown.events]
      by_cases last : drawn = x.ttlFrames
      · rw [if_pos last, if_pos (Nat.sub_eq_zero_of_le (by omega))]
      · rw [if_neg last, if_neg (Nat.sub_ne_zero_of_lt (by omega))]
    constructor
    · rw [only (.inl rfl), events]
      by_cases last : drawn = x.ttlFrames
      · rw [if_pos last, if_neg (by omega)]
        rfl
      · rw [if_neg last, if_pos (by omega), List.count_singleton_self]
    · rw [only (.inr (.inr rfl)), events]
      by_cases last : drawn = x.ttlFrames
      · rw [if_pos last, if_pos last, List.count_cons_of_ne (fun same => apart (Event.free.inj same).symm),
          List.count_singleton_self]
      · rw [if_neg last, if_neg last]
        rfl
    · rw [only (.inr (.inl rfl)), events]
      by_cases last : drawn = x.ttlFrames
      · rw [if_pos last, if_pos last, List.count_cons_self,
          List.count_eq_zero_of_not_mem fun within => apart (Event.free.inj (List.mem_singleton.mp within)).symm]
      · rw [if_neg last, if_neg last]
        rfl
  | gone after node text older =>
    have never {e : Event} (about : e = .pprintf x.node x.buf ∨ e = .free x.text ∨ e = .free x.node) :
        ((List.finRange MAX_TOASTS).flatMap b.eventsAt).count e = 0 := by
      apply List.count_eq_zero_of_not_mem
      intro within
      obtain ⟨j, -, within⟩ := List.mem_flatMap.mp within
      obtain ⟨y, there, within⟩ := mem_eventsAt within
      have ownNode : y.node ∈ b.owned := ⟨j, y, there, .inl rfl⟩
      have ownText : y.text ∈ b.owned := ⟨j, y, there, .inr rfl⟩
      rcases mem_events within with rfl | rfl | rfl
      · rcases about with same | same | same
        · exact node ((Event.pprintf.inj same).1 ▸ ownNode)
        · cases same
        · cases same
      · rcases about with same | same | same
        · cases same
        · exact text (Event.free.inj same ▸ ownText)
        · exact node (Event.free.inj same ▸ ownText)
      · rcases about with same | same | same
        · cases same
        · exact text (Event.free.inj same ▸ ownNode)
        · exact node (Event.free.inj same ▸ ownNode)
    constructor
    · rw [never (.inl rfl), if_neg (by omega)]
    · rw [never (.inr (.inr rfl)), if_neg (by omega)]
    · rw [never (.inr (.inl rfl)), if_neg (by omega)]

theorem drawToasts (fresh : t.debugDrawerInternalHeap.fresh = s.debugDrawerInternalHeap.fresh) :
    Stage t b.drawToasts x (drawn + 1) := by
  cases stage with
  | shown i left there =>
    by_cases last : drawn = x.ttlFrames
    · have ended : b.drawToasts i = none := by
        rw [Board.drawToasts, there, Option.bind_some, Shown.tick, if_pos (Nat.sub_eq_zero_of_le (by omega))]
      have noOther {j : Fin MAX_TOASTS} {y : Shown} (there' : b.drawToasts j = some y) :
          (y.node ≠ x.node ∧ y.node ≠ x.text) ∧ y.text ≠ x.node ∧ y.text ≠ x.text := by
        have other : j ≠ i := by
          rintro rfl
          rw [ended] at there'
          cases there'
        obtain ⟨y', there'', node, text⟩ := drawToasts_before there'
        have others := shows.others there there'' other
        rw [node, text] at others
        exact others
      refine .gone (by omega) ?_ ?_ ?_
      · rintro ⟨j, y, there', node | text⟩
        · exact (noOther there').1.1 node.symm
        · exact (noOther there').2.1 text.symm
      · rintro ⟨j, y, there', node | text⟩
        · exact (noOther there').1.2 node.symm
        · exact (noOther there').2.2 text.symm
      · have node := Heap.lt_fresh (shows.node_live there)
        have text := Heap.lt_fresh (shows.text_live there)
        rw [fresh]
        exact ⟨node, text⟩
    · apply Stage.shown i (by omega)
      rw [Board.drawToasts, there, Option.bind_some, Shown.tick, if_neg (Nat.sub_ne_zero_of_lt (by omega)),
        Option.some.injEq]
      simp only [Shown.mk.injEq, true_and, and_true]
      omega
  | gone after node text older =>
    have fewer : b.drawToasts.owned ⊆ b.owned := by
      rintro a ⟨j, y, there, leads⟩
      obtain ⟨y', there', sameNode, sameText⟩ := drawToasts_before there
      rw [← sameNode, ← sameText] at leads
      exact ⟨j, y', there', leads⟩
    rw [← fresh] at older
    exact .gone (by omega) (fun own => node (fewer own)) (fun own => text (fewer own)) older

omit shows in
theorem toastf {i : Fin MAX_TOASTS} (unused : b i = none) {y : Shown}
    (new : s.debugDrawerInternalHeap.fresh ≤ y.node ∧ s.debugDrawerInternalHeap.fresh ≤ y.text)
    (fresh : s.debugDrawerInternalHeap.fresh ≤ t.debugDrawerInternalHeap.fresh) :
    Stage t (Function.update b i (some y)) x drawn := by
  cases stage with
  | shown j left there =>
    have other : j ≠ i := by
      rintro rfl
      rw [unused] at there
      cases there
    exact .shown j left (by rw [Function.update_of_ne other, there])
  | gone after node text older =>
    have more {a : Nat} (old : a < s.debugDrawerInternalHeap.fresh) (notOwned : a ∉ b.owned) :
        a ∉ Board.owned (Function.update b i (some y)) := by
      rintro ⟨j, z, there, leads⟩
      by_cases same : j = i
      · rw [same, Function.update_self, Option.some.injEq] at there
        subst there
        omega
      · rw [Function.update_of_ne same] at there
        exact notOwned ⟨j, z, there, leads⟩
    exact .gone after (more older.1 node) (more older.2 text) ⟨by omega, by omega⟩

theorem step (op : Op) : ∃ t b' lost', s.step op = some t ∧ Shows t b' lost' ∧
    Stage t b' x (drawn + [op].count .drawToasts) := by
  cases op with
  | drawToasts =>
    obtain ⟨t, events, shows', fresh⟩ := shows.drawToasts_eq
    refine ⟨t, _, _, ?_, shows', stage.drawToasts shows fresh⟩
    rw [TextWriter.step, events, Option.map_some]
  | toastf ttlFrames buf =>
    by_cases accepts : ∃ i, s.toasts i = none
    · obtain ⟨t, i, unused, put, shows', fresh⟩ := shows.toastf_eq accepts ttlFrames buf
      exact ⟨t, _, _, put, shows', stage.toastf unused ⟨le_rfl, Nat.le_succ _⟩ (by omega)⟩
    · obtain ⟨t, refused, shows', fresh⟩ := shows.toastf_refused (not_exists.mp accepts) ttlFrames buf
      refine ⟨t, _, _, refused, shows', ?_⟩
      cases stage with
      | shown i left there => exact .shown i left there
      | gone after node text older => exact .gone after node text ⟨by omega, by omega⟩

theorem run (ops : List Op) : ∃ t b' lost', s.run ops = some t ∧ Shows t b' lost' ∧
    Stage t b' x (drawn + ops.count .drawToasts) := by
  induction ops generalizing s b lost drawn with
  | nil => exact ⟨s, b, lost, rfl, shows, stage⟩
  | cons op ops ih =>
    obtain ⟨s', b', lost', step, shows', stage'⟩ := stage.step shows op
    obtain ⟨t, b'', lost'', run, shows'', stage''⟩ := ih shows' stage'
    refine ⟨t, b'', lost'', ?_, shows'', ?_⟩
    · rw [TextWriter.run, List.foldlM_cons, step]
      exact run
    · rw [List.count_cons]
      rw [List.count_singleton] at stage''
      rw [Nat.add_assoc, Nat.add_comm _ (List.count _ ops)] at stage''
      exact stage''

end Stage

theorem stage_begins (s : TextWriter) (b : Board) (i : Fin MAX_TOASTS) (x : Shown) :
    Stage s (Function.update b i (some x)) x 0 := .shown i (Nat.zero_le _) (Function.update_self _ _ _)

theorem live_eq_of_accepts {s : TextWriter} (reached : toastSystem.ReachableUnder Accepts s) :
    s.debugDrawerInternalHeap.live = s.reachable := by
  obtain ⟨b, shows⟩ := exists_shows_empty reached
  exact shows.live_eq_reachable_iff.mpr rfl

theorem live_ne_of_refused {s t : TextWriter} {op : Op} (reached : toastSystem.ReachableUnder Accepts s)
    (refused : ¬ Accepts s op) (taken : toastSystem.Step s op t) : t.debugDrawerInternalHeap.live ≠ t.reachable := by
  obtain ⟨b, shows⟩ := exists_shows_empty reached
  obtain ⟨t', b', lost', step, shows', -, loses⟩ := step_eq shows op
  obtain rfl : t = t' := Option.some.inj (taken.symm.trans step)
  rw [Ne, shows'.live_eq_reachable_iff]
  exact (loses refused).ne_empty

theorem exists_run {s : TextWriter} {b : Board} {lost : Set Nat} (shows : Shows s b lost) (ops : List Op) :
    ∃ t, s.run ops = some t := by
  induction ops generalizing s b lost with
  | nil => exact ⟨s, rfl⟩
  | cons op ops ih =>
    obtain ⟨s', b', lost', step, shows', -⟩ := step_eq shows op
    obtain ⟨t, run⟩ := ih shows'
    refine ⟨t, ?_⟩
    rw [TextWriter.run, List.foldlM_cons, step]
    exact run

/-- Nothing leaks in a run exactly if no toast of it is refused. Nothing is freed twice or used
after, and what is accepted is drawn in as many draws as it has frames and freed in the next. -/
theorem live_eq_reachable_iff_accepts (run : toastSystem.Run) :
    ((∀ i ≤ run.length, (run.state i).debugDrawerInternalHeap.live = (run.state i).reachable) ↔
      ∀ i < run.length, Accepts (run.state i) (run.action i)) ∧
    (∀ s, toastSystem.Reachable s → ∀ ops, ∃ t, s.run ops = some t) ∧
    ∀ s, toastSystem.Reachable s → ∀ ttlFrames buf, (∃ i, s.toasts i = none) →
      ∃ s₁ node text, s.toastf ttlFrames buf = some s₁ ∧
        node ∉ s.debugDrawerInternalHeap.live ∧ text ∉ s.debugDrawerInternalHeap.live ∧
        s₁.debugDrawerInternalHeap.live = {node, text} ∪ s.debugDrawerInternalHeap.live ∧
        ∀ ops, ∃ t t' events, s₁.run ops = some t ∧ t.drawToasts = some (t', events) ∧
          Told events ⟨node, text, ttlFrames, buf⟩ (ops.count .drawToasts) := by
  refine ⟨run.holds_iff (fun s => live_eq_of_accepts) fun s op t => live_ne_of_refused, ?_, ?_⟩
  · intro s reached ops
    obtain ⟨b, lost, shows⟩ := exists_shows reached
    exact exists_run shows ops
  · intro s reached ttlFrames buf accepts
    obtain ⟨b, lost, shows⟩ := exists_shows reached
    obtain ⟨s₁, i, unused, put, shows₁, -⟩ := shows.toastf_eq accepts ttlFrames buf
    refine ⟨s₁, _, _, put, Heap.fresh_not_mem_live le_rfl, Heap.fresh_not_mem_live (Nat.le_succ _), ?_, ?_⟩
    · rw [shows₁.live, shows.live, Board.owned_put unused, Set.union_assoc]
    · intro ops
      obtain ⟨t, b', lost', run, shows', stage'⟩ := (stage_begins s₁ b i _).run shows₁ ops
      obtain ⟨t', drawn, -⟩ := shows'.drawToasts_eq
      rw [Nat.zero_add] at stage'
      exact ⟨t, t', _, run, drawn, stage'.told shows'⟩

/-- Live, but no slot leads to it. -/
def TextWriter.leaks (s : TextWriter) (a : Nat) : Bool :=
  (s.debugDrawerInternalHeap.cells a).isSome &&
    (List.finRange MAX_TOASTS).all fun i =>
      (s.toasts i).all fun node => a ≠ node && (s.node node).all fun value => value.outputText ≠ some a

theorem live_ne_of_leaks {s : TextWriter} {a : Nat} (leaks : s.leaks a = true) :
    s.debugDrawerInternalHeap.live ≠ s.reachable := by
  unfold TextWriter.leaks at leaks
  rw [Bool.and_eq_true, List.all_eq_true] at leaks
  obtain ⟨isLive, apart⟩ := leaks
  intro same
  have isReachable : a ∈ s.reachable := same ▸ isLive
  obtain ⟨i, node, toast, leads⟩ := isReachable
  have slot := apart i (List.mem_finRange i)
  rw [toast, Option.all_some, Bool.and_eq_true, decide_eq_true_eq] at slot
  rcases leads with equal | ⟨value, own, text⟩
  · exact slot.1 equal
  · rw [own, Option.all_some, decide_eq_true_eq] at slot
    exact slot.2 text

/-- The first toast too many leaves its node behind. -/
theorem refused_toast_leaks :
    ∃ s, TextWriter.start.run (List.replicate 33 (.toastf 1 "")) = some s ∧
      s.debugDrawerInternalHeap.live ≠ s.reachable := by
  have leaks : (TextWriter.start.run (List.replicate 33 (.toastf 1 ""))).any (fun s => s.leaks 64) = true := by
    decide +kernel
  obtain ⟨s, run, leaks⟩ := Option.any_eq_true _ _ |>.mp leaks
  exact ⟨s, run, live_ne_of_leaks leaks⟩

end LotusKit.Draw

import LotusKit.Frame.Steps

/-! What holds for the draw lists after any number of turns of any threads. -/

namespace LotusKit.Frame
open LotusKit.Lib.LinkedList

variable {T α : Type} {K : Nat} [DecidableEq T] {items : Fin K → List (Ptr × α)} {b : Board K α} {n : Nat}
  {s : DrawFrame T α K} (hasArgs : α → Bool)

theorem keeps_step (inv : Inv s b items n) (t : T) (c : Choice K α) : (s.step hasArgs t c).Keeps s t b n := by
  cases c with
  | appendNewDrawNode i x => exact keeps_appendNewDrawNode hasArgs inv i x
  | drawFrame => exact keeps_drawFrame hasArgs inv
  | allocated newNode => exact keeps_allocated hasArgs inv newNode
  | allocatedArgs done => exact keeps_allocatedArgs hasArgs inv done
  | go =>
    cases at_pc : s.pc t with
    | append i x p => exact keeps_append hasArgs inv at_pc
    | enter i x p => exact keeps_enter hasArgs inv at_pc
    | walk i x p node => exact keeps_walk hasArgs inv at_pc
    | release => exact keeps_release hasArgs inv at_pc
    | drawList k => exact keeps_drawList hasArgs inv at_pc
    | drawNode i node => exact keeps_drawNode hasArgs inv at_pc
    | wipe i => exact keeps_wipe hasArgs inv at_pc
    | _ => simp only [DrawFrame.step, at_pc, Outcome.Keeps]

omit [DecidableEq T] in
theorem inv_start : Inv (DrawFrame.start : DrawFrame T α K) Board.empty (fun _ => []) 0 where
  laid := .nil
  idle _ _ := rfl
  free _ := ⟨fun _ => rfl, rfl⟩
  held _ locked := nomatch locked

theorem DrawFrame.run_blocked {t : T} {c : Choice K α} (outcome : s.step hasArgs t c = .blocked)
    (turns : List (T × Choice K α)) : s.run hasArgs ((t, c) :: turns) = s.run hasArgs turns := by
  rw [DrawFrame.run, outcome]

theorem DrawFrame.run_next {t : T} {c : Choice K α} {s' : DrawFrame T α K} {event : Option (DrawEvent K α)}
    (outcome : s.step hasArgs t c = .next s' event) (turns : List (T × Choice K α)) :
    s.run hasArgs ((t, c) :: turns) = (s'.run hasArgs turns).map fun ended => (ended.1, event.toList ++ ended.2) := by
  rw [DrawFrame.run, outcome]

theorem Inv.run (turns : List (T × Choice K α)) (inv : Inv s b items n) :
    ∃ s' events, s.run hasArgs turns = some (s', events) ∧ b.Proper events ∧
      ∃ items' n', Inv s' (events.foldl Board.after b) items' n' := by
  induction turns generalizing s b items n with
  | nil => exact ⟨s, [], rfl, trivial, items, n, inv⟩
  | cons turn turns ih =>
    obtain ⟨t, c⟩ := turn
    have keeps := keeps_step hasArgs inv t c
    cases outcome : s.step hasArgs t c with
    | blocked =>
      obtain ⟨s', events, ran, rest⟩ := ih inv
      refine ⟨s', events, ?_, rest⟩
      rw [DrawFrame.run_blocked hasArgs outcome, ran]
    | fault =>
      rw [outcome] at keeps
      exact keeps.elim
    | next s₁ event =>
      rw [outcome] at keeps
      cases event with
      | none =>
        obtain ⟨items₁, n₁, inv₁, -⟩ := keeps
        obtain ⟨s', events, ran, rest⟩ := ih inv₁
        refine ⟨s', events, ?_, rest⟩
        rw [DrawFrame.run_next hasArgs outcome, ran]
        rfl
      | some event =>
        obtain ⟨allowed, items₁, n₁, inv₁, -⟩ := keeps
        obtain ⟨s', events, ran, proper, rest⟩ := ih inv₁
        refine ⟨s', event :: events, ?_, ⟨allowed, proper⟩, rest⟩
        rw [DrawFrame.run_next hasArgs outcome, ran]
        rfl

/-- In whatever order threads append and draw, no node is touched after it has been freed, a frame draws
exactly what was appended before it, in order, and what no frame has drawn yet stands in the lists. -/
theorem run_proper (turns : List (T × Choice K α)) :
    ∃ s events, (DrawFrame.start : DrawFrame T α K).run hasArgs turns = some (s, events) ∧
      Board.empty.Proper events ∧
      (s.drawListLock = none → ∀ i, ∃ items, Lists s.heap (s.drawLists i) items ∧
        items.map Prod.snd = (events.foldl Board.after Board.empty).queued i) := by
  obtain ⟨s, events, ran, proper, items, n, inv⟩ := inv_start.run hasArgs turns
  refine ⟨s, events, ran, proper, ?_⟩
  intro unlocked i
  exact ⟨items i, inv.laid.lists i, (inv.free unlocked).contents i⟩

/-- One primitive for each list, the second list first, and then a frame. -/
def primitiveTurns : List (Bool × Choice 2 (PrimitiveDrawerDrawNode Nat)) :=
  [(false, .appendNewDrawNode 1 ⟨7, 40⟩), (false, .allocated (some 0)), (true, .appendNewDrawNode 0 ⟨9, 50⟩),
    (false, .allocatedArgs true), (false, .go), (false, .go), (true, .appendNewDrawNode 0 ⟨8, 60⟩),
    (true, .allocated (some 1)), (true, .allocatedArgs true), (true, .go), (true, .go), (false, .drawFrame)]

example :
    ((DrawFrame.start : PrimitiveDrawerFrame Bool Nat).run PrimitiveDrawerDrawNode.hasArgs
      (primitiveTurns ++ List.replicate 8 (false, .go))).map Prod.snd =
      some [.appended 1 ⟨7, 40⟩, .appended 0 ⟨8, 60⟩, .drawn 0 ⟨8, 60⟩, .drawn 1 ⟨7, 40⟩, .freed] := by
  decide

/-- How many of its turns a thread can make use of. -/
def turnsOf (t : T) (s : DrawFrame T α K) : List (T × Choice K α) → Nat
  | [] => 0
  | (u, c) :: turns =>
    match s.step hasArgs u c with
    | .blocked => turnsOf t s turns
    | .fault => 0
    | .next s' _ => (if u = t then 1 else 0) + turnsOf t s' turns

omit [DecidableEq T] in
theorem Outcome.Keeps.next {t : T} {s' : DrawFrame T α K} {event : Option (DrawEvent K α)}
    (keeps : (Outcome.next s' event).Keeps s t b n) :
    ∃ b' items' n', Inv s' b' items' n' ∧ Goes s t n s' n' := by
  cases event with
  | none => exact ⟨b, keeps⟩
  | some event => exact ⟨b.after event, keeps.2⟩

/-- With every turn that its owner can make use of, the lock comes nearer to being given back. -/
theorem Inv.released (t : T) (turns : List (T × Choice K α)) (inv : Inv s b items n) (owner : s.drawListLock = some t)
    (enough : n < turnsOf hasArgs t s turns) :
    ∃ k s' events, s.run hasArgs (turns.take k) = some (s', events) ∧ s'.drawListLock = none := by
  induction turns generalizing s b items n with
  | nil => exact absurd enough (Nat.not_lt_zero n)
  | cons turn turns ih =>
    obtain ⟨u, c⟩ := turn
    have keeps := keeps_step hasArgs inv u c
    rw [turnsOf] at enough
    cases outcome : s.step hasArgs u c with
    | blocked =>
      rw [outcome] at enough
      obtain ⟨k, s', events, ran, free⟩ := ih inv owner enough
      refine ⟨k + 1, s', events, ?_, free⟩
      rw [List.take_succ_cons, DrawFrame.run_blocked hasArgs outcome, ran]
    | fault =>
      rw [outcome] at keeps
      exact keeps.elim
    | next s₁ event =>
      rw [outcome] at keeps enough
      dsimp only at enough
      obtain ⟨b₁, items₁, n₁, inv₁, goes⟩ := keeps.next
      -- what is left of the run, when the lock is not free at once
      have later : s₁.drawListLock = some t → n₁ < turnsOf hasArgs t s₁ turns →
          ∃ k s' events, s.run hasArgs (((u, c) :: turns).take k) = some (s', events) ∧ s'.drawListLock = none := by
        intro owner₁ enough₁
        obtain ⟨k, s', events, ran, free⟩ := ih inv₁ owner₁ enough₁
        refine ⟨k + 1, s', event.toList ++ events, ?_, free⟩
        rw [List.take_succ_cons, DrawFrame.run_next hasArgs outcome, ran]
        rfl
      by_cases same : u = t
      · subst same
        rw [if_pos rfl] at enough
        obtain free | ⟨owner₁, less⟩ := goes.owner owner
        · refine ⟨1, s₁, event.toList ++ [], ?_, free⟩
          rw [List.take_succ_cons, DrawFrame.run_next hasArgs outcome]
          rfl
        · exact later owner₁ (by omega)
      · rw [if_neg same, Nat.zero_add] at enough
        have locked : s.drawListLock ≠ none := by simp [owner]
        have other : s.drawListLock ≠ some u := fun also => same (Option.some.inj (also.symm.trans owner))
        obtain ⟨rfl, rfl⟩ := goes.other locked other
        exact later owner enough

omit [DecidableEq T] in
theorem Outcome.Keeps.possible {t : T} {outcome : Outcome (DrawFrame T α K) (DrawEvent K α)}
    (keeps : outcome.Keeps s t b n) (able : outcome ≠ .blocked) : ∃ s' event, outcome = .next s' event := by
  cases outcome with
  | blocked => exact absurd rfl able
  | fault => exact keeps.elim
  | next s' event => exact ⟨s', event, rfl⟩

/-- The owner of the lock never waits for anyone. -/
theorem Inv.able (t : T) (inv : Inv s b items n) (owner : s.drawListLock = some t) :
    ∃ c s' event, s.step hasArgs t c = .next s' event := by
  have stage := inv.held t owner
  have can_go : ∀ c, s.step hasArgs t c ≠ .blocked → ∃ c s' event, s.step hasArgs t c = .next s' event :=
    fun c able => ⟨c, (keeps_step hasArgs inv t c).possible able⟩
  cases at_pc : s.pc t with
  | idle =>
    rw [at_pc] at stage
    exact stage.elim
  | alloc i x => exact can_go (.allocated none) (by simp [DrawFrame.step, at_pc])
  | allocArgs i x p => exact can_go (.allocatedArgs true) (by simp [DrawFrame.step, at_pc])
  | append i x p | enter i x p | drawList k =>
    apply can_go .go
    simp only [DrawFrame.step, at_pc]
    split
    all_goals try split
    all_goals simp
  | walk i x p node | drawNode i node =>
    apply can_go .go
    simp only [DrawFrame.step, at_pc]
    split <;> simp
  | release | wipe i => exact can_go .go (by simp [DrawFrame.step, at_pc])

/-- No thread keeps the lock for ever, whatever the other threads do in the meantime. -/
theorem lock_released (before : List (T × Choice K α)) (events : List (DrawEvent K α)) (t : T)
    (ran : (DrawFrame.start : DrawFrame T α K).run hasArgs before = some (s, events))
    (owner : s.drawListLock = some t) :
    (∃ c s' event, s.step hasArgs t c = .next s' event) ∧
      ∃ n, ∀ turns, n < turnsOf hasArgs t s turns →
        ∃ k s' events, s.run hasArgs (turns.take k) = some (s', events) ∧ s'.drawListLock = none := by
  obtain ⟨s₀, events₀, ran₀, -, items, n, inv⟩ := inv_start.run hasArgs before
  cases ran₀.symm.trans ran
  exact ⟨inv.able hasArgs t owner, n, fun turns enough => inv.released hasArgs t turns owner enough⟩

theorem primitive_released :
    ∃ s events, (DrawFrame.start : PrimitiveDrawerFrame Bool Nat).run PrimitiveDrawerDrawNode.hasArgs primitiveTurns =
        some (s, events) ∧ s.drawListLock = some false ∧
      (∃ c s' event, s.step PrimitiveDrawerDrawNode.hasArgs false c = .next s' event) ∧
      ∃ n, ∀ turns, n < turnsOf PrimitiveDrawerDrawNode.hasArgs false s turns →
        ∃ k s' events, s.run PrimitiveDrawerDrawNode.hasArgs (turns.take k) = some (s', events) ∧
          s'.drawListLock = none :=
  ⟨_, _, rfl, rfl, lock_released _ primitiveTurns _ false rfl rfl⟩

end LotusKit.Frame

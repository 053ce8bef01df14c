import LotusKit.Schedule.AwaitStage

/-! A script that called one of the await binds is not executed before a look at it, with
its slot on top and nothing else holding it up, saw what it waits for. -/

namespace LotusKit.Schedule
open LotusKit.Lib.Transition

namespace Sched

/-- The scheduler, with slot `k` on top, observes what the script there waits for. -/
structure Observes (s : Sched) (k : Nat) (await : Await) : Prop where
  top : s.moduleStackIndex = k
  inForce : await.InForce (s.moduleStack k).state.awaits
  sees : s.Sees await

/-- The next statement of the script in slot `k` is the call of a bind. -/
structure Calls (s : Sched) (k : Nat) (bind : Bind) : Prop where
  control : s.control = .run
  running : ∃ rest, s.running = k :: rest
  program : ∃ rest, (s.moduleStack k).asCtx.program = .call bind rest

variable {s t : Sched}

/-- A script about to run a statement was not asked to suspend. -/
def Goes (s : Sched) : Prop :=
  s.control = .run → ∀ sp ∈ s.running.head?, (s.moduleStack sp).asCtx.doSuspend = false

theorem Returned.goes (returned : s.Returned) : s.Goes := by
  intro stands
  simp only [Returned, stands] at returned

theorem goes_step {a : Action} (goes : s.Goes) (taken : Step s a t) : t.Goes := by
  cases taken with
  | tick _ _ =>
    rcases s.tick_returned with returned | ⟨still, -⟩ | ⟨sp, rest, -, running, asked, going⟩
    · exact returned.goes
    · rw [still]
      exact goes
    · rw [going]
      intro _ top member
      have same : sp = top := by simpa [running] using member
      rw [← same]
      exact asked
  | push source answers program stands =>
    have idle : s.Returned := by simp only [Returned, stands]
    exact (returned_pushed idle (s.pushed_pushFrom answers program source)).goes
  | frame deltaFrame60 stands =>
    intro running
    rw [playbackCalc] at running
    rcases s.abortStackImpl.playbackResume_cases deltaFrame60 with same | same
    · rw [same] at running
      rcases s.abortStackImpl_control with kept | crashed
      · cases (kept.trans stands).symm.trans running
      · cases crashed.symm.trans running
    · rw [same] at running
      cases running
  | pauses counts targets _ => exact goes

theorem goes_reachable (reached : scheduler.Reachable s) : s.Goes :=
  System.Reachable.invariant (fun _ start => start ▸ nofun) (fun _ _ _ => goes_step) reached

/-- Every step moves the stack, requests an abort, or ends the run; only a tick looks. -/
theorem moves_step {a : Action} (reached : scheduler.Reachable s) (quiet : s.isAbortReq = false)
    (orderly : s.stage.Orderly) (taken : Step s a t) :
    Stops s t ∨ Stage.Moves (fun await => a = .tick ∧ s.Sees await) s.stage t.stage := by
  cases taken with
  | tick running runs =>
    have looks : (fun await => Action.tick = Action.tick ∧ s.Sees await) = s.Sees := by
      funext await
      simp
    rw [looks]
    obtain ⟨inv, placed⟩ := (inv_reachable reached).resolve_left runs.1
    cases stands : s.control with
    | idle => exact absurd stands running
    | fault => exact absurd stands runs.1
    | crash => exact absurd stands runs.2
    | ctxEnter deltaFrame60 =>
      simp only [tick, stands]
      exact moves_calcCtxEnter inv stands
    | boundary =>
      simp only [Placed, stands] at placed
      obtain ⟨sp, rest, running, -, -⟩ := placed
      simp only [tick, stands, running]
      exact .inr (moves_checkFlags running s.Sees)
    | run =>
      simp only [Placed, stands] at placed
      obtain ⟨rest, running, waiting, -⟩ := placed
      have goes := goes_reachable reached stands s.moduleStackIndex (by rw [running]; rfl)
      simp only [tick, stands, running]
      exact moves_runStatement inv running waiting quiet orderly goes s.Sees
  | push source answers program stands =>
    obtain ⟨inv, empty⟩ := reachable_idle reached stands
    exact moves_pushed ⟨inv, .inl ⟨stands, empty⟩⟩ quiet orderly
      (s.pushed_pushFrom answers program source) _
  | frame deltaFrame60 _ =>
    right
    rw [playbackCalc, abortStackImpl_of_quiet quiet]
    rcases s.playbackResume_cases deltaFrame60 with same | same <;> rw [same] <;> exact .stays
  | pauses counts targets _ => exact .inr .stays

/-- A push does not end an abort. -/
theorem aborting_pushed (aborting : s.isAbortReq = true) {target : PushTarget}
    {answers : ScriptSource} {program : Script} {doImmediateExecute blockOnDebugPause : Bool}
    (pushed : Pushed s target answers program doImmediateExecute blockOnDebugPause t) :
    t.isAbortReq = true := by
  have entered (v : Sched) (same : v.isAbortReq = true) (sp m : Nat) (hasEntryPoint : Bool) :
      (v.enterSlot sp m hasEntryPoint program doImmediateExecute blockOnDebugPause).isAbortReq =
        true := by
    unfold enterSlot
    split
    · rfl
    · simp only
      split
      · rfl
      · split <;> exact same
  cases pushed with
  | refused _ _ => rfl
  | @entered m u _ provided =>
    have kept : u.isAbortReq = true := by cases provided <;> exact aborting
    have suspended : (if u.getSP.asCtx.status = .active then u.trySuspendCtx else u).isAbortReq =
        true := by
      split <;> exact kept
    unfold pushExecModuleEntryPoint
    generalize (if u.getSP.asCtx.status = .active then u.trySuspendCtx else u) = v at suspended
    simp only
    split
    · exact entered (v.modifySlot _ _) suspended _ _ _
    · split
      · exact entered (v.inheritOnPush _) suspended _ _ _
      · exact suspended

/-- Only a frame ends an abort, and it leaves an empty stack. -/
theorem orderly_of_aborting {a : Action} (reached : scheduler.Reachable s)
    (aborting : s.isAbortReq = true) (taken : Step s a t) (quiet : t.isAbortReq = false) :
    t.stage.Orderly := by
  cases taken with
  | tick _ _ =>
    have still := (aborting_tick (inv_reachable reached) aborting).1
    exact absurd (quiet.symm.trans still) (by decide)
  | push source answers program _ =>
    have still := aborting_pushed aborting (s.pushed_pushFrom answers program source)
    exact absurd (quiet.symm.trans still) (by decide)
  | frame deltaFrame60 stands =>
    obtain ⟨-, empty⟩ := reachable_idle reached stands
    obtain ⟨modules, discards, control, cleared⟩ := abortStackImpl_spec aborting
    rw [playbackCalc]
    rcases s.abortStackImpl.playbackResume_cases deltaFrame60 with same | same
    · rw [same, cleared]
      exact .of_empty empty rfl
    · rw [same, cleared]
      exact .of_empty empty rfl
  | pauses counts targets _ => exact absurd (quiet.symm.trans aborting) (by decide)

theorem runs_of_step {a : Action} (taken : Step s a t) : s.Runs := by
  cases taken with
  | tick _ runs => exact runs
  | push _ _ _ stands => simp [Runs, stands]
  | frame _ stands => simp [Runs, stands]
  | pauses _ _ runs => exact runs

theorem not_stops (quiet : t.isAbortReq = false) (runs : t.Runs) : ¬Stops s t := by
  rintro ⟨aborting | broken, -⟩
  · exact absurd (quiet.symm.trans aborting) (by decide)
  · exact broken runs

/-- The stack is orderly unless an abort is pending or the run is over. -/
theorem orderly_reachable (reached : scheduler.Reachable s) (quiet : s.isAbortReq = false)
    (runs : s.Runs) : s.stage.Orderly := by
  induction reached with
  | start begins =>
    obtain rfl := begins
    exact .of_empty rfl rfl
  | @step v w a reached _ taken ih =>
    have whole := runs_of_step taken
    by_cases calm : v.isAbortReq = false
    · have orderly := ih calm whole
      have moves := (moves_step reached calm orderly taken).resolve_left (not_stops quiet runs)
      exact orderly.moves moves
    · exact orderly_of_aborting reached (by simpa using calm) taken quiet

/-- What a script that awaits keeps until it is resumed. -/
def Awaiting (s : Sched) (k : Nat) (await : Await) : Prop :=
  s.isAbortReq = false → s.Runs → s.stage.Held k await

variable {k : Nat} {await : Await}

/-- The scheduler observes what the script awaits, or the obligation ends. -/
def Discharges (s : Sched) (a : Action) (k : Nat) (await : Await) : Prop :=
  s.isAbortReq = true ∨ (a = .tick ∧ s.Observes k await)

theorem awaiting_step {a : Action} (named : await.hash ≠ 0) (reached : scheduler.Reachable s)
    (awaiting : s.Awaiting k await) (bound : ¬s.Discharges a k await) (taken : Step s a t) :
    t.Awaiting k await := by
  intro quiet runs
  have calm : s.isAbortReq = false := by
    by_contra aborting
    exact bound (.inl (by simpa using aborting))
  have whole := runs_of_step taken
  have held := awaiting calm whole
  have orderly := orderly_reachable reached calm whole
  have moves := (moves_step reached calm orderly taken).resolve_left (not_stops quiet runs)
  rcases held.moves named orderly moves with ⟨held', -⟩ | ⟨top, ticks, sees⟩
  · exact held'
  · exact absurd (.inr ⟨ticks, top, held.inForce, sees⟩) bound

/-- The call of an await bind begins the wait. -/
theorem awaiting_called {bind : Bind} (reached : scheduler.Reachable s) (called : s.Calls k bind)
    (awaits : bind.await = some await) (taken : Step s .tick t) : t.Awaiting k await := by
  cases taken
  intro _ _
  obtain ⟨stands, ⟨rest, running⟩, ⟨next, program⟩⟩ := called
  have whole : s.Runs := by simp [Runs, stands]
  obtain ⟨-, placed⟩ := (inv_reachable reached).resolve_left whole.1
  simp only [Placed, stands] at placed
  obtain ⟨rest', top, -, calm⟩ := placed
  obtain rfl : k = s.moduleStackIndex := (List.cons.inj (running.symm.trans top)).1
  have orderly := orderly_reachable reached calm whole
  have member : s.moduleStackIndex ∈ s.running := by
    rw [running]
    exact List.mem_cons_self
  have goes := goes_reachable reached stands s.moduleStackIndex (by rw [running]; rfl)
  have begun := (s.setProgram s.moduleStackIndex next).stage_await awaits
  rw [stage_setProgram] at begun
  have ticked : s.tick.stage = { s.stage with
      awaits := Function.update s.stage.awaits s.moduleStackIndex
        (await.begin (s.stage.awaits s.moduleStackIndex))
      doSuspend := Function.update s.stage.doSuspend s.moduleStackIndex true } := by
    simp only [tick, stands, running, runStatement, program]
    exact begun
  rw [ticked]
  refine ⟨Nat.le_refl _, orderly.asModule _ member, ?_, fun _ => ?_, fun _ => ?_⟩
  · simpa using await.inForce_begin (orderly.beyond _ member goes)
  · simp
  · exact orderly.not_pending member goes

/-- The step that executes a waiting script observed what it waits for. -/
theorem observes_of_execute {a : Action} (named : await.hash ≠ 0) (reached : scheduler.Reachable s)
    (quiet : s.isAbortReq = false) (awaiting : s.Awaiting k await) (taken : Step s a t)
    (executed : t.events = s.events ++ [.execute k]) : a = .tick ∧ s.Observes k await := by
  have whole := runs_of_step taken
  have held := awaiting quiet whole
  have orderly := orderly_reachable reached quiet whole
  have again : t.stage.executed = s.stage.executed ++ [k] := by
    simp [stage, executed, Event.executed]
  rcases moves_step reached quiet orderly taken with ⟨-, same⟩ | moves
  · rw [again] at same
    simp at same
  · rcases held.moves named orderly moves with ⟨-, other⟩ | ⟨top, ticks, sees⟩
    · exact absurd again other
    · exact ⟨ticks, top, held.inForce, sees⟩

end Sched

/-- A script that awaits is not executed again before the scheduler, in a look at it with
its slot on top, observed what it waits for, unless everything is aborted. -/
theorem observed_before_execute (run : scheduler.Run) {i j k : Nat} {bind : Bind} {await : Await}
    (order : i < j) (within : j < run.length) (called : (run.state i).Calls k bind)
    (ticks : run.action i = .tick) (awaits : bind.await = some await) (named : await.hash ≠ 0)
    (quiet : ∀ m, i < m → m ≤ j → (run.state m).isAbortReq = false)
    (executed : (run.state (j + 1)).events = (run.state j).events ++ [.execute k]) :
    ∃ m, i < m ∧ m ≤ j ∧ run.action m = .tick ∧ (run.state m).Observes k await := by
  have reached (m : Nat) (inside : m ≤ run.length) : scheduler.Reachable (run.state m) :=
    run.reachableUnder m inside fun _ _ => trivial
  have begins : (run.state (i + 1)).Awaiting k await := by
    have taken := run.step i (by omega)
    rw [ticks] at taken
    exact Sched.awaiting_called (reached i (by omega)) called awaits taken
  have kept := run.keeps_unless (fun _ _ _ reached awaiting bound taken =>
    Sched.awaiting_step named reached awaiting bound taken) order (by omega) begins
  rcases kept with awaiting | ⟨m, after, before, aborting | observes⟩
  · have observes := Sched.observes_of_execute named (reached j (by omega))
      (quiet j order (Nat.le_refl j)) awaiting (run.step j within) executed
    exact ⟨j, order, Nat.le_refl j, observes⟩
  · have calm := quiet m (by omega) (by omega)
    exact absurd (calm.symm.trans aborting) (by decide)
  · exact ⟨m, by omega, by omega, observes⟩

/-- A hotkey awaits the pause of hash 5, another one interrupts it, and the pause comes. -/
def awaitInterrupted : List Action :=
  [.push (.hotkeyEval 7) ⟨true, false, true, true⟩ (.call (.awaitPauseRequest 5) .done),
   .frame 2, .tick, .tick, .tick, .tick,
   .push (.hotkeyEval 8) ⟨true, false, true, true⟩ .done,
   .pauses (fun hash => if hash = 5 then 1 else 0) fun _ => false,
   .frame 2, .tick, .tick, .tick, .tick]

theorem awaitInterrupted_observed : ∃ run : scheduler.Run, ∃ m, 4 < m ∧ m ≤ 12 ∧
    run.action m = .tick ∧ (run.state m).Observes 0 ⟨false, 5, true⟩ := by
  let run := scheduler.replay awaitInterrupted (by decide +kernel)
  have called : (run.state 4).Calls 0 (.awaitPauseRequest 5) :=
    ⟨by decide +kernel, ⟨[], by decide +kernel⟩, ⟨.done, rfl⟩⟩
  have quiet : ∀ m ≤ 12, (run.state m).isAbortReq = false := by decide +kernel
  exact ⟨run, observed_before_execute run (by decide) (by decide) called rfl rfl (by decide)
    (fun m _ upTo => quiet m upTo) (by decide +kernel)⟩

end LotusKit.Schedule

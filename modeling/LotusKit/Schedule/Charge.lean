import LotusKit.Schedule.Clock
import LotusKit.Schedule.Reachable

/-! Who is charged for the time of a frame. The input that was applied while the frame
elapsed is that of the slot that was on top when the last one ended; scripts that were
pushed since then are on top of it by the time the frame is accounted for. -/

namespace LotusKit.Schedule
open LotusKit.Lib.Transition

def Action.isSinceFrame : Action → Bool
  | .push _ _ _ => true
  | .pauses _ _ => true
  | _ => false

namespace Sched

/-- From one frame to the next scripts are pushed and pauses come and go. -/
inductive SinceFrame (p : Sched) : Sched → Prop
  | refl : SinceFrame p p
  | step {s t : Sched} {a : Action} : SinceFrame p s → a.isSinceFrame = true → Step s a t → SinceFrame p t

def ttl (s : Sched) (i : Nat) : Nat := (s.moduleStack i).state.inputTTL60

/-- The next tick, up to where it accounted for the frame time. -/
def afterAccounting (s : Sched) : Sched :=
  match s.control with
  | .ctxEnter deltaFrame60 => s.accounted deltaFrame60
  | _ => s

/-- The frame of length `deltaFrame60` that starts in `s` is charged to the slot whose
input was applied since the frame before ended in `p`, at its first accounting and never
again, and the elapsed playback grows by as much. -/
structure ChargedOnce (p s : Sched) (deltaFrame60 : Nat) : Prop where
  charged : ∀ i, (s.playbackCalc deltaFrame60).afterAccounting.ttl i =
    if i = p.moduleStackIndex then s.ttl i - deltaFrame60 else s.ttl i
  once : ∀ n i, (tick^[n + 1] (s.playbackCalc deltaFrame60)).afterAccounting.ttl i =
    (tick^[n + 1] (s.playbackCalc deltaFrame60)).ttl i
  elapsed : ∀ n, (tick^[n + 1] (s.playbackCalc deltaFrame60)).elapsedPlayback60 =
    u32 (s.elapsedPlayback60 + deltaFrame60)

variable {s t p : Sched}

theorem elapsed_of_clock (same : t.clock = s.clock) : t.elapsedPlayback60 = s.elapsedPlayback60 :=
  congrArg (fun c => c.2.2) same

section Accounting

/-- The accounting of a frame, without frame advance. -/
theorem calcConsumeFrametime_calm (calm : s.isFrameAdvance = false) (deltaFrame60 : Nat) :
    (s.calcConsumeFrametime_queryIsInputExhausted deltaFrame60).2 =
      s.deductFrametime s.chargedSlot deltaFrame60 false := by
  simp only [calcConsumeFrametime_queryIsInputExhausted, calm, Bool.false_eq_true, if_false, if_true]

theorem ttl_deductFrametime (s : Sched) (slot deltaFrame60 i : Nat) (aware : Bool) :
    (s.deductFrametime slot deltaFrame60 aware).ttl i =
      if i = slot then s.ttl i - deltaFrame60 else s.ttl i := by
  by_cases same : i = slot
  · cases aware <;> simp [deductFrametime, ttl, modifyState, same]
  · cases aware <;> simp [deductFrametime, ttl, modifyState, same]

theorem moduleStack_calcFrameAdvance (s : Sched) (slot deltaFrame60 : Nat) :
    (s.calcFrameAdvance slot deltaFrame60).1.moduleStack = s.moduleStack ∧
      (s.calcFrameAdvance slot deltaFrame60).1.elapsedPlayback60 = s.elapsedPlayback60 := by
  simp only [calcFrameAdvance]
  split
  · exact ⟨rfl, rfl⟩
  split
  · exact ⟨rfl, rfl⟩
  split
  · exact ⟨rfl, rfl⟩
  split
  · exact ⟨rfl, rfl⟩
  · split <;> exact ⟨rfl, rfl⟩

/-- Accounting for no time charges nobody. -/
theorem ttl_calcConsumeFrametime_zero (s : Sched) (i : Nat) :
    (s.calcConsumeFrametime_queryIsInputExhausted 0).2.ttl i = s.ttl i := by
  have deducted (u : Sched) (slot : Nat) (aware : Bool) : (u.deductFrametime slot 0 aware).ttl i = u.ttl i := by
    rw [ttl_deductFrametime, Nat.sub_zero, ite_self]
  have advanced : (s.calcFrameAdvance s.chargedSlot 0).1.ttl i = s.ttl i := by
    rw [ttl, (s.moduleStack_calcFrameAdvance _ _).1, ttl]
  cases calm : s.isFrameAdvance with
  | false => rw [calcConsumeFrametime_calm calm, deducted]
  | true =>
    simp only [calcConsumeFrametime_queryIsInputExhausted, calm, if_true]
    split
    · rw [deducted, advanced]
    · exact advanced

theorem ttl_accounted_zero (s : Sched) (i : Nat) : (s.accounted 0).ttl i = s.ttl i := by
  unfold accounted
  have awaits := s.onlyAwaits_isBlockedFromScheduling.inputTTL60 i
  split
  · rfl
  · split
    · exact awaits
    · rw [ttl_calcConsumeFrametime_zero]
      exact awaits

/-- Time passes for the clock by the frame, or stands still. -/
theorem elapsed_accounted (s : Sched) (deltaFrame60 : Nat) :
    (s.accounted deltaFrame60).elapsedPlayback60 = s.elapsedPlayback60 ∨
      (s.accounted deltaFrame60).elapsedPlayback60 = u32 (s.elapsedPlayback60 + deltaFrame60) := by
  have deducted (u : Sched) (slot : Nat) (aware : Bool)
      (same : u.elapsedPlayback60 = s.elapsedPlayback60) :
      (u.deductFrametime slot deltaFrame60 aware).elapsedPlayback60 = s.elapsedPlayback60 ∨
        (u.deductFrametime slot deltaFrame60 aware).elapsedPlayback60 =
          u32 (s.elapsedPlayback60 + deltaFrame60) := by
    cases aware with
    | false => exact .inr (congrArg (fun n => u32 (n + deltaFrame60)) same)
    | true => exact .inl same
  have awaits := elapsed_of_clock s.onlyAwaits_isBlockedFromScheduling.clock
  unfold accounted
  split
  · exact .inl rfl
  · split
    · exact .inl awaits
    · generalize s.isBlockedFromScheduling.2 = u at awaits
      simp only [calcConsumeFrametime_queryIsInputExhausted]
      have advanced := (u.moduleStack_calcFrameAdvance u.chargedSlot deltaFrame60).2
      split
      · split
        · exact deducted _ _ _ (advanced.trans awaits)
        · exact .inl (advanced.trans awaits)
      · rw [if_pos rfl]
        exact deducted _ _ _ awaits

/-- The frame's accounting, when it is reached. -/
theorem accounted_calm (valid : s.isValidForExecution = true)
    (unblocked : s.isBlockedFromScheduling.1 = false) (calm : s.isFrameAdvance = false)
    (deltaFrame60 : Nat) :
    (∀ i, (s.accounted deltaFrame60).ttl i =
        if i = s.chargedSlot then s.ttl i - deltaFrame60 else s.ttl i) ∧
      (s.accounted deltaFrame60).elapsedPlayback60 = u32 (s.elapsedPlayback60 + deltaFrame60) := by
  have awaits := s.onlyAwaits_isBlockedFromScheduling
  have calm' : s.isBlockedFromScheduling.2.isFrameAdvance = false :=
    (congrArg (fun c => c.1) awaits.clock).trans calm
  have reached : s.accounted deltaFrame60 =
      s.isBlockedFromScheduling.2.deductFrametime s.chargedSlot deltaFrame60 false := by
    rw [accounted, if_neg (by simp [valid]), if_neg (by simp [unblocked]),
      calcConsumeFrametime_calm calm', awaits.chargedSlot]
  rw [reached]
  constructor
  · intro i
    rw [ttl_deductFrametime, ttl, awaits.inputTTL60 i, ttl]
  · exact congrArg (fun n => u32 (n + deltaFrame60)) (elapsed_of_clock awaits.clock)

end Accounting

section WithinFrame

/-- The C++ stack unwinds without running another statement, or playback is active. -/
def Playing (s : Sched) : Prop :=
  s.isPlaybackActive = true ∨ s.control = .idle ∨ ¬s.Runs ∨
    (s.control = .boundary ∧ ∀ i ∈ s.running, (s.moduleStack i).asCtx.doSuspend = true)

theorem playing_calcCtxReturn (waits : ∀ i ∈ s.running, (s.moduleStack i).asCtx.doSuspend = true)
    (isCompleteOrFail : Bool) : (s.calcCtxReturn isCompleteOrFail).Playing := by
  by_cases empty : s.running = []
  · exact .inr (.inl (by simp [calcCtxReturn, empty]))
  · exact .inr (.inr (.inr ⟨by simp [calcCtxReturn, empty], waits⟩))

theorem doSuspend_abortStackReq (reason : String) {i : Nat}
    (stops : (s.moduleStack i).asCtx.doSuspend = true) :
    ((s.abortStackReq reason).moduleStack i).asCtx.doSuspend = true := by
  simp only [abortStackReq]
  split
  · rfl
  · exact stops

theorem isPlaybackActive_calcConsumeFrametime (s : Sched) (deltaFrame60 : Nat) :
    (s.calcConsumeFrametime_queryIsInputExhausted deltaFrame60).2.isPlaybackActive =
      s.isPlaybackActive := by
  have deducted (u : Sched) (slot : Nat) (aware : Bool) :
      (u.deductFrametime slot deltaFrame60 aware).isPlaybackActive = u.isPlaybackActive := by
    cases aware <;> rfl
  have advanced : (s.calcFrameAdvance s.chargedSlot deltaFrame60).1.isPlaybackActive =
      s.isPlaybackActive := by
    simp only [calcFrameAdvance]
    split
    · rfl
    split
    · rfl
    split
    · rfl
    split
    · rfl
    · split <;> rfl
  simp only [calcConsumeFrametime_queryIsInputExhausted]
  split
  · split
    · rw [deducted, advanced]
    · exact advanced
  · rw [if_pos rfl]
    exact deducted _ _ _

theorem playing_calcCtxEnter (waiting : s.Waiting s.running) (active : s.isPlaybackActive = true)
    (deltaFrame60 : Nat) : (s.calcCtxEnter deltaFrame60).Playing := by
  have awaits := s.onlyAwaits_isBlockedFromScheduling.isPlaybackActive
  unfold calcCtxEnter
  split
  · apply playing_calcCtxReturn
    intro i member
    exact doSuspend_abortStackReq _ (waiting i member).1
  · simp only
    generalize s.isBlockedFromScheduling.2 = u at awaits
    have consumed := u.isPlaybackActive_calcConsumeFrametime deltaFrame60
    have still : (u.calcConsumeFrametime_queryIsInputExhausted deltaFrame60).2.isPlaybackActive =
        true := consumed.trans (awaits.trans active)
    split
    · exact .inl (by simp [calcCtxReturn, awaits, active])
    · split
      · exact .inl (by simp [calcCtxReturn, still])
      · exact .inl still

theorem isPlaybackActive_callBind (active : s.isPlaybackActive = true) (bind : Bind) :
    (s.callBind bind).isPlaybackActive = true := by
  have scheduled (duration : Nat) (b : BitVec 64) (l r : AnalogStickState) :
      (s.setCurrentInput duration b l r).isPlaybackActive = true := by
    simp only [setCurrentInput]
    split <;> rfl
  cases bind with
  | input duration b l r => exact scheduled duration b l r
  | inputOr duration b l r => exact scheduled duration b l r
  | inputXor duration b l r => exact scheduled duration b l r
  | sleep duration => exact scheduled duration _ _ _
  | beginFrameAdvance =>
    simp only [callBind, beginFrameAdvance]
    split <;> split <;> exact active
  | stepFrameAdvance duration =>
    simp only [callBind, stepFrameAdvance]
    split
    · exact active
    · simp only [beginFrameAdvance]
      split <;> split <;> exact active
  | _ => first | exact active | rfl

/-- A bind starts the time over at most when nothing is played back. -/
theorem elapsed_callBind (s : Sched) (bind : Bind) :
    (s.callBind bind).elapsedPlayback60 = s.elapsedPlayback60 ∨
      (s.isPlaybackActive = false ∧ (s.callBind bind).elapsedPlayback60 = 0) := by
  have scheduled (duration : Nat) (b : BitVec 64) (l r : AnalogStickState) :
      (s.setCurrentInput duration b l r).elapsedPlayback60 = s.elapsedPlayback60 ∨
        (s.isPlaybackActive = false ∧ (s.setCurrentInput duration b l r).elapsedPlayback60 = 0) := by
    cases active : s.isPlaybackActive with
    | true => exact .inl (elapsed_of_clock (clock_of_meter (s.meter_setCurrentInput active duration b l r)))
    | false =>
      refine .inr ⟨rfl, ?_⟩
      simp only [setCurrentInput, modifyState_isPlaybackActive, emit_isPlaybackActive, active]
      split <;> rfl
  cases bind with
  | input duration b l r => exact scheduled duration b l r
  | inputOr duration b l r => exact scheduled duration b l r
  | inputXor duration b l r => exact scheduled duration b l r
  | sleep duration => exact scheduled duration _ _ _
  | beginFrameAdvance =>
    refine .inl ?_
    simp only [callBind, beginFrameAdvance]
    split <;> split <;> rfl
  | stepFrameAdvance duration =>
    refine .inl ?_
    simp only [callBind, stepFrameAdvance]
    split
    · rfl
    · simp only [beginFrameAdvance]
      split <;> split <;> rfl
  | _ => exact .inl rfl

/-- Leaving `Execute` for good: the scripts below wait. -/
theorem playing_executeReturn {sp : Nat} {rest : List Nat} (inv : s.StackInv)
    (running : s.running = sp :: rest) (waiting : s.Waiting rest) {status : EContextState}
    (stays : status = .finished → s.isPlaybackActive = true ∧ sp = s.moduleStackIndex) :
    (s.executeReturn sp status).Playing := by
  have below : ∀ i ∈ rest, i ≠ sp := by
    intro i member same
    subst same
    exact not_mem_of_nested (running ▸ inv.nested) member
  have left (i : Nat) (member : i ∈ rest) :
      ((s.leaveExecute sp status).moduleStack i).asCtx.doSuspend = true := by
    simp only [leaveExecute, modifyCtx, modifySlot_moduleStack, if_neg (below i member)]
    exact (waiting i member).1
  have tail : (s.leaveExecute sp status).running = rest := by
    simp only [leaveExecute, modifyCtx_running, running, List.tail_cons]
  have returns (isCompleteOrFail : Bool) :
      ((s.leaveExecute sp status).calcCtxReturn isCompleteOrFail).Playing :=
    playing_calcCtxReturn (tail ▸ left) _
  unfold executeReturn
  cases status with
  | finished =>
    obtain ⟨active, top⟩ := stays rfl
    have popped : (((s.leaveExecute sp .finished).modifyCtx sp
        ScriptContext.unprepare).tryDiscardLastModuleForPop).isPlaybackActive = true := by
      simp [leaveExecute, active]
    simp only [calcCtxAfterExecute, tryDiscardLastModuleForPop_index]
    split
    next crashed => exact .inr (.inr (.inl fun runs => runs.2 crashed))
    split
    next bottom =>
      -- the script at the bottom has nobody below it
      have empty : rest = [] := by
        have zero : sp = 0 := top.trans bottom
        apply List.eq_nil_iff_forall_not_mem.mpr
        intro i member
        have less := List.rel_of_pairwise_cons (running ▸ inv.nested) member
        omega
      refine .inr (.inl ?_)
      rw [calcCtxReturn, tryDiscardLastModuleForPop_running]
      exact if_pos (tail.trans empty)
    next =>
      refine .inl ?_
      simp only [inheritOnPop]
      split <;> exact popped
  | exception =>
    apply playing_calcCtxReturn
    intro i member
    exact doSuspend_abortStackReq _ (left i (tail ▸ member))
  | _ => exact returns _

theorem playing_tick (inv : s.Inv) (playing : s.Playing) : s.tick.Playing := by
  rcases inv with broken | ⟨inv, placed⟩
  · rw [show s.tick = s by simp only [tick, broken]]
    exact playing
  cases stands : s.control with
  | idle =>
    rw [show s.tick = s by simp only [tick, stands]]
    exact playing
  | fault =>
    rw [show s.tick = s by simp only [tick, stands]]
    exact playing
  | crash =>
    rw [show s.tick = s by simp only [tick, stands]]
    exact playing
  | ctxEnter deltaFrame60 =>
    simp only [Placed, stands] at placed
    have active : s.isPlaybackActive = true := by simpa [Playing, Runs, stands] using playing
    simp only [tick, stands]
    exact playing_calcCtxEnter placed active deltaFrame60
  | boundary =>
    simp only [Placed, stands] at placed
    obtain ⟨sp, rest, running, waiting, -⟩ := placed
    simp only [tick, stands, running]
    by_cases goesOn : (s.moduleStack sp).asCtx.doSuspend = false
    · rw [checkFlags, if_pos goesOn]
      rcases playing with active | idle | broken | ⟨-, waits⟩
      · exact .inl active
      · exact absurd (stands.symm.trans idle) (by decide)
      · exact absurd (by simp [Runs, stands]) broken
      · have stops := waits sp (running ▸ List.mem_cons_self)
        exact absurd (stops.symm.trans goesOn) (by decide)
    · rw [checkFlags, if_neg goesOn]
      split
      · exact playing_executeReturn inv running waiting fun finished => by cases finished
      · exact playing_executeReturn inv running waiting fun finished => by cases finished
  | run =>
    simp only [Placed, stands] at placed
    obtain ⟨rest, running, waiting, -⟩ := placed
    have active : s.isPlaybackActive = true := by simpa [Playing, Runs, stands] using playing
    simp only [tick, stands, running, runStatement]
    split
    · exact playing_executeReturn inv running waiting fun _ => ⟨active, rfl⟩
    · exact playing_executeReturn inv running waiting fun finished => by cases finished
    · exact .inl (isPlaybackActive_callBind (s := s.setProgram s.moduleStackIndex _) active _)
    · exact .inl ((pushed_pushExec _ _ _).clock.2.trans active)

/-- `calcCtx` is not being entered with time to charge. -/
def NoTime (s : Sched) : Prop := ∀ deltaFrame60, s.control = .ctxEnter deltaFrame60 → deltaFrame60 = 0

/-- Only the first `CTX_ENTER` of a frame has time to charge. -/
theorem noTime_tick (s : Sched) : s.tick.NoTime := by
  intro deltaFrame60 enters
  rcases s.tick_returned with returned | ⟨still, elsewhere⟩ | ⟨sp, rest, _, _, _, going⟩
  · simp only [Returned, enters] at returned
    exact returned
  · exact absurd (still ▸ enters) (elsewhere deltaFrame60)
  · rw [going] at enters
    cases enters

/-- Any time of a frame after its first tick, with `elapsed60` on the clock. -/
structure Later (s : Sched) (elapsed60 : Nat) : Prop where
  inv : s.Inv
  playing : s.Playing
  noTime : s.NoTime
  elapsed : s.elapsedPlayback60 = elapsed60

theorem Later.tick {elapsed60 : Nat} (word : elapsed60 < 2 ^ 32) (later : s.Later elapsed60) :
    s.tick.Later elapsed60 := by
  obtain ⟨inv, playing, noTime, elapsed⟩ := later
  refine ⟨inv_tick inv, playing_tick inv playing, noTime_tick s, ?_⟩
  cases s.tickClock with
  | enters deltaFrame60 stands ticked _ =>
    rw [ticked, elapsed_of_clock (s.clock_calcCtxEnter deltaFrame60), noTime deltaFrame60 stands]
    rcases s.elapsed_accounted 0 with still | moved
    · exact still.trans elapsed
    · rw [moved, elapsed, Nat.add_zero, u32_of_lt word]
  | calls sp bind rest stands _ ticked =>
    have active : s.isPlaybackActive = true := by simpa [Playing, Runs, stands] using playing
    rw [ticked]
    rcases (s.setProgram sp rest).elapsed_callBind bind with same | ⟨inactive, -⟩
    · exact same.trans elapsed
    · exact absurd (active.symm.trans inactive) (by decide)
  | other _ _ same => exact (elapsed_of_clock same).trans elapsed

theorem Later.iterate {elapsed60 : Nat} (word : elapsed60 < 2 ^ 32) (later : s.Later elapsed60)
    (n : Nat) : (Sched.tick^[n] s).Later elapsed60 := by
  induction n with
  | zero => exact later
  | succ n ih =>
    rw [Function.iterate_succ_apply']
    exact ih.tick word

/-- No later accounting of a frame charges anybody. -/
theorem charged_once (s : Sched) (n i : Nat) :
    (tick^[n + 1] s).afterAccounting.ttl i = (tick^[n + 1] s).ttl i := by
  have noTime : (tick^[n + 1] s).NoTime := by
    rw [Function.iterate_succ_apply']
    exact noTime_tick _
  generalize tick^[n + 1] s = w at noTime
  unfold afterAccounting
  split
  next deltaFrame60 enters =>
    rw [noTime deltaFrame60 enters]
    exact w.ttl_accounted_zero i
  next => rfl

end WithinFrame

section BetweenFrames

/-- The elapsed playback is a `u32`. -/
theorem elapsed_lt (reached : scheduler.Reachable s) : s.elapsedPlayback60 < 2 ^ 32 := by
  have atStart (s : Sched) (start : scheduler.Start s) : s.elapsedPlayback60 < 2 ^ 32 := by
    obtain rfl : s = .init := start
    decide
  refine System.Reachable.invariant atStart (fun s a t small taken => ?_) reached
  have kept {t : Sched} (same : t.clock = s.clock) : t.elapsedPlayback60 < 2 ^ 32 :=
    (elapsed_of_clock same).symm ▸ small
  cases taken with
  | push source answers program _ => exact kept (s.pushed_pushFrom answers program source).clock.1
  | frame deltaFrame60 _ => exact kept (s.clock_playbackCalc deltaFrame60)
  | pauses counts targets _ => exact small
  | tick _ _ =>
    cases s.tickClock with
    | other _ _ same => exact kept same
    | enters deltaFrame60 _ ticked _ =>
      rw [ticked, elapsed_of_clock (s.clock_calcCtxEnter deltaFrame60)]
      rcases s.elapsed_accounted deltaFrame60 with still | moved
      · exact still.symm ▸ small
      · exact moved.symm ▸ u32_lt _
    | calls sp bind rest _ _ ticked =>
      rw [ticked]
      rcases (s.setProgram sp rest).elapsed_callBind bind with same | ⟨-, beyond⟩
      · exact same.symm ▸ small
      · exact beyond.symm ▸ by decide

/-- What pushes and pauses between two frames do, as long as no abort is requested. -/
structure Interval (p s : Sched) : Prop where
  isPlaybackActive : s.isPlaybackActive = p.isPlaybackActive
  beyond : s.isAbortReq = false → p.moduleStackIndex ≤ s.moduleStackIndex
  pending : s.isAbortReq = false → p.moduleStackIndex < s.moduleStackIndex →
    s.isPlaybackBeginPending = true
  fresh : s.isAbortReq = false → ∀ j, p.moduleStackIndex < j → j ≤ s.moduleStackIndex → s.ttl j = 0

/-- A deferred push aborts, or makes slot `sp` the top with nothing scheduled there. -/
theorem enterSlot_deferred (s : Sched) (sp m : Nat) (hasEntryPoint : Bool) (program : Script)
    (blockOnDebugPause : Bool) :
    let t := s.enterSlot sp m hasEntryPoint program false blockOnDebugPause
    t.isAbortReq = true ∨
      (t.isAbortReq = s.isAbortReq ∧ t.moduleStackIndex = sp ∧ t.isPlaybackBeginPending = true ∧
        ∀ j, t.ttl j = s.ttl j) := by
  simp only [enterSlot]
  split
  · exact .inl rfl
  · split
    · exact .inl rfl
    · refine .inr ⟨rfl, rfl, rfl, fun j => ?_⟩
      by_cases same : j = sp <;> simp [ttl, setModule, modifyState, modifyCtx, same]

theorem Interval.congr (interval : Interval p s)
    (active : t.isPlaybackActive = s.isPlaybackActive) (index : t.moduleStackIndex = s.moduleStackIndex)
    (pending : t.isPlaybackBeginPending = s.isPlaybackBeginPending)
    (aborts : t.isAbortReq = false → s.isAbortReq = false) (ttls : ∀ j, t.ttl j = s.ttl j) :
    Interval p t where
  isPlaybackActive := active.trans interval.isPlaybackActive
  beyond quiet := index ▸ interval.beyond (aborts quiet)
  pending quiet raised := pending.trans (interval.pending (aborts quiet) (index ▸ raised))
  fresh quiet j above below := (ttls j).trans (interval.fresh (aborts quiet) j above (index ▸ below))

/-- A slot that was reset and entered is the top, with nothing scheduled. -/
theorem Interval.enterSlot (interval : Interval p s) {sp : Nat}
    (next : sp = s.moduleStackIndex ∨ sp = s.moduleStackIndex + 1) (reset : t.ttl sp = 0)
    (others : ∀ j, j ≠ sp → t.ttl j = s.ttl j) (active : t.isPlaybackActive = s.isPlaybackActive)
    (aborts : t.isAbortReq = s.isAbortReq) (m : Nat) (hasEntryPoint : Bool) (program : Script)
    (blockOnDebugPause : Bool) :
    Interval p (t.enterSlot sp m hasEntryPoint program false blockOnDebugPause) := by
  have playing := (t.clock_enterSlot sp m hasEntryPoint program false blockOnDebugPause).2
  have entered := t.enterSlot_deferred sp m hasEntryPoint program blockOnDebugPause
  generalize t.enterSlot sp m hasEntryPoint program false blockOnDebugPause = u at playing entered
  have quietly (quiet : u.isAbortReq = false) : s.isAbortReq = false ∧ u.moduleStackIndex = sp ∧
      u.isPlaybackBeginPending = true ∧ ∀ j, u.ttl j = t.ttl j := by
    rcases entered with aborted | ⟨same, index, pending, ttls⟩
    · exact absurd (aborted.symm.trans quiet) (by decide)
    · exact ⟨aborts.symm.trans (same.symm.trans quiet), index, pending, ttls⟩
  refine ⟨playing.trans (active.trans interval.isPlaybackActive), fun quiet => ?_, fun quiet _ => ?_,
    fun quiet j above below => ?_⟩
  · obtain ⟨before, index, -, -⟩ := quietly quiet
    have beyond := interval.beyond before
    omega
  · exact (quietly quiet).2.2.1
  · obtain ⟨before, index, -, ttls⟩ := quietly quiet
    rw [ttls j]
    by_cases top : j = sp
    · rw [top, reset]
    · rw [others j top]
      exact interval.fresh before j above (by omega)

theorem Interval.push (interval : Interval p s) (m : Nat) (hasEntryPoint : Bool) (program : Script)
    (blockOnDebugPause : Bool) :
    Interval p (s.pushExecModuleEntryPoint m hasEntryPoint program false blockOnDebugPause) := by
  have suspended : Interval p (if s.getSP.asCtx.status = .active then s.trySuspendCtx else s) := by
    split
    · refine interval.congr rfl rfl rfl id fun j => ?_
      by_cases top : j = s.moduleStackIndex <;> simp [ttl, trySuspendCtx, modifyCtx, top]
    · exact interval
  unfold pushExecModuleEntryPoint
  generalize (if s.getSP.asCtx.status = .active then s.trySuspendCtx else s) = u at suspended
  simp only
  split
  · refine suspended.enterSlot (t := u.modifySlot _ _) (.inl rfl) ?_ (fun j other => ?_) rfl rfl
      _ _ _ _
    · simp [ttl, ModuleStackFrame.resetState]
    · simp [ttl, other]
  · split
    · refine suspended.enterSlot (t := u.inheritOnPush _) (.inr rfl) ?_ (fun j other => ?_) rfl rfl
        _ _ _ _
      · simp [ttl, inheritOnPush, ModuleStackFrame.resetState]
      · simp [ttl, inheritOnPush, other]
    · exact suspended.congr rfl rfl rfl id fun _ => rfl

theorem SinceFrame.interval (between : SinceFrame p s) : Interval p s := by
  induction between with
  | refl => exact ⟨rfl, fun _ => Nat.le_refl _, fun _ raised => absurd raised (Nat.lt_irrefl _),
      fun _ j above below => absurd above (by omega)⟩
  | @step s t a _ is taken ih =>
    cases taken with
    | tick _ _ => cases is
    | frame _ _ => cases is
    | pauses counts targets _ => exact ih.congr rfl rfl rfl id fun _ => rfl
    | push source answers program _ =>
      have pushed := s.pushed_pushFrom answers program source
      generalize s.pushFrom source answers program = t at pushed
      cases pushed with
      | refused reason _ =>
        refine ⟨ih.isPlaybackActive, nofun, nofun, nofun⟩
      | @entered m u _ provided =>
        have provided' : Interval p u := by
          cases provided with
          | reused _ => exact ih
          | built _ => exact ih.congr rfl rfl rfl id fun _ => rfl
        exact provided'.push m answers.hasEntryPoint program source.blockOnDebugPause

theorem SinceFrame.reachable (between : SinceFrame p s) (reached : scheduler.Reachable p) :
    scheduler.Reachable s := by
  induction between with
  | refl => exact reached
  | step _ _ taken ih => exact ih.step taken

end BetweenFrames

/-- The slot whose input was applied is on top or right below it, or it has nothing left;
and no script that was pending all along is about to interrupt another input. -/
def ChargesApplied (p s : Sched) : Prop :=
  (s.moduleStackIndex ≤ p.moduleStackIndex + 1 ∨ s.ttl p.moduleStackIndex = 0) ∧
    ¬(s.moduleStackIndex = p.moduleStackIndex ∧ s.isPlaybackBeginPending = true ∧
      0 < s.moduleStackIndex ∧ 0 < s.ttl (s.moduleStackIndex - 1))

theorem chargedSlot_eq (s : Sched) : s.chargedSlot =
    if s.isPlaybackBeginPending = true ∧ 0 < s.moduleStackIndex ∧ 0 < s.ttl (s.moduleStackIndex - 1)
    then s.moduleStackIndex - 1 else s.moduleStackIndex := rfl

/-- The slot charged is the one whose input was applied, or it makes no difference. -/
theorem Interval.charges_iff (interval : Interval p s) (quiet : s.isAbortReq = false)
    {deltaFrame60 : Nat} (some_ : 0 < deltaFrame60) :
    (∀ i, (if i = s.chargedSlot then s.ttl i - deltaFrame60 else s.ttl i) =
        if i = p.moduleStackIndex then s.ttl i - deltaFrame60 else s.ttl i) ↔
      ChargesApplied p s := by
  have beyond := interval.beyond quiet
  have pending := interval.pending quiet
  have fresh := interval.fresh quiet
  -- charging two different slots makes a difference unless both have nothing left
  have same : (∀ i, (if i = s.chargedSlot then s.ttl i - deltaFrame60 else s.ttl i) =
      if i = p.moduleStackIndex then s.ttl i - deltaFrame60 else s.ttl i) ↔
      (s.chargedSlot = p.moduleStackIndex ∨
        (s.ttl s.chargedSlot = 0 ∧ s.ttl p.moduleStackIndex = 0)) := by
    constructor
    · intro equal
      by_cases applied : s.chargedSlot = p.moduleStackIndex
      · exact .inl applied
      · have left := equal s.chargedSlot
        have right := equal p.moduleStackIndex
        rw [if_pos rfl, if_neg applied] at left
        rw [if_neg (Ne.symm applied), if_pos rfl] at right
        exact .inr ⟨by omega, by omega⟩
    · rintro (applied | ⟨left, right⟩) i
      · rw [applied]
      · by_cases charged : i = s.chargedSlot
        · rw [charged, left, Nat.zero_sub, ite_self, ite_self]
        · by_cases applied : i = p.moduleStackIndex
          · rw [applied, right, Nat.zero_sub, ite_self, ite_self]
          · rw [if_neg charged, if_neg applied]
  rw [same, chargedSlot_eq, ChargesApplied]
  generalize p.moduleStackIndex = applied at *
  rcases Nat.lt_trichotomy (applied + 1) s.moduleStackIndex with many | one | none_
  · -- the slot below the top is one of the new ones
    have below := fresh (s.moduleStackIndex - 1) (by omega) (by omega)
    have top := fresh s.moduleStackIndex (by omega) (Nat.le_refl _)
    rw [if_neg (by omega)]
    constructor
    · rintro (is | ⟨-, nothing⟩)
      · omega
      · exact ⟨.inr nothing, by omega⟩
    · rintro ⟨few | nothing, -⟩
      · omega
      · exact .inr ⟨top, nothing⟩
  · have top := fresh s.moduleStackIndex (by omega) (Nat.le_refl _)
    have interrupts := pending (by omega)
    have below : s.moduleStackIndex - 1 = applied := by omega
    refine iff_of_true ?_ ⟨.inl (by omega), by omega⟩
    rw [below]
    by_cases left : 0 < s.ttl applied
    · rw [if_pos ⟨interrupts, by omega, left⟩]
      exact .inl rfl
    · rw [if_neg (by omega)]
      exact .inr ⟨top, by omega⟩
  · have onTop : s.moduleStackIndex = applied := by omega
    rw [onTop] at *
    by_cases interrupts : s.isPlaybackBeginPending = true ∧ 0 < applied ∧ 0 < s.ttl (applied - 1)
    · rw [if_pos interrupts]
      constructor
      · rintro (is | ⟨nothing, -⟩) <;> omega
      · rintro ⟨-, not_⟩
        exact absurd ⟨rfl, interrupts⟩ not_
    · rw [if_neg interrupts]
      exact iff_of_true (.inl rfl) ⟨.inl (by omega), fun bad => interrupts bad.2⟩

/-- Being blocked has nothing to do with the program counter. -/
theorem isBlockedFromScheduling_control (s : Sched) (c : Control) :
    ({ s with control := c } : Sched).isBlockedFromScheduling.1 = s.isBlockedFromScheduling.1 := by
  have pauses (s : Sched) (hash : Nat) :
      ({ s with control := c } : Sched).isPauseRequest hash = s.isPauseRequest hash := rfl
  have top (s : Sched) : ({ s with control := c } : Sched).getSP = s.getSP := rfl
  have request (s : Sched) : ({ s with control := c } : Sched).calcScheduleIsAwaitPauseRequest =
      (s.calcScheduleIsAwaitPauseRequest.1,
        { s.calcScheduleIsAwaitPauseRequest.2 with control := c }) := by
    unfold calcScheduleIsAwaitPauseRequest
    by_cases free : s.getSP.state.isAwaitPauseRequestHash = 0
    · rw [if_pos free, if_pos free]
    · rw [if_neg free, if_neg free]
      by_cases waits : s.getSP.state.awaitPauseVal ≠
          s.isPauseRequest s.getSP.state.isAwaitPauseRequestHash
      · rw [if_pos waits]
        exact if_pos waits
      · rw [if_neg waits]
        exact if_neg waits
  have target (s : Sched) : ({ s with control := c } : Sched).calcScheduleIsAwaitPauseTarget.1 =
      s.calcScheduleIsAwaitPauseTarget.1 := by
    unfold calcScheduleIsAwaitPauseTarget
    by_cases free : s.getSP.state.isAwaitPauseTargetHash = 0
    · rw [if_pos free, if_pos free]
    · rw [if_neg free, if_neg free]
      by_cases waits : s.getSP.state.awaitPauseVal ≠
          s.targetPaused s.getSP.state.isAwaitPauseTargetHash
      · rw [if_pos waits, if_pos waits]
      · rw [if_neg waits, if_neg waits]
  have await (s : Sched) : ({ s with control := c } : Sched).isBlockedByAwait.1 =
      s.isBlockedByAwait.1 := by
    simp only [isBlockedByAwait, request]
    split
    · rfl
    · exact target _
  have loading (s : Sched) : ({ s with control := c } : Sched).isBlockedByLoadingPause.1 =
      s.isBlockedByLoadingPause.1 := by
    simp only [isBlockedByLoadingPause, pauses, top]
    split
    · rfl
    · exact await s
  have cleared : ({ s with control := c } : Sched).clearAwaitOf DebugPause =
      { s.clearAwaitOf DebugPause with control := c } := by
    unfold clearAwaitOf
    by_cases awaited : s.getSP.state.isAwaitPauseRequestHash = DebugPause ∧
        s.getSP.state.awaitPauseVal = true
    · rw [if_pos awaited, if_pos awaited]
      rfl
    · rw [if_neg awaited, if_neg awaited]
  simp only [isBlockedFromScheduling, cleared, pauses, top]
  split
  · rfl
  · split
    · split
      · exact loading _
      · rfl
    · exact loading s

/-- `calcCtx` gives up on a stack that cannot be played. -/
theorem resume_invalid (empty : s.running = []) (stands : s.control = .idle ∨ s.control = .crash)
    (invalid : s.isValidForExecution = false) (deltaFrame60 : Nat) :
    (∀ i, (s.playbackResume deltaFrame60).afterAccounting.ttl i = s.ttl i) ∧
      (s.playbackResume deltaFrame60).tick.Playing ∧
      (s.playbackResume deltaFrame60).tick.elapsedPlayback60 = s.elapsedPlayback60 := by
  rcases s.playbackResume_cases deltaFrame60 with same | same
  · rw [same]
    have still : s.tick = s := by rcases stands with is | is <;> simp only [tick, is]
    refine ⟨fun i => ?_, ?_, by rw [still]⟩
    · rcases stands with is | is <;> simp only [afterAccounting, is]
    · rw [still]
      exact stands.elim (fun idle => .inr (.inl idle))
        fun crashed => .inr (.inr (.inl fun runs => runs.2 crashed))
  · rw [same]
    generalize is : ({ s with control := .ctxEnter deltaFrame60 } : Sched) = w
    have invalid' : w.isValidForExecution = false := is ▸ invalid
    have ticked : w.tick = (w.abortStackReq "[tas::schedule::calcCtx] no playable ctx").calcCtxReturn
        true := by
      have enters : w.tick = w.calcCtxEnter deltaFrame60 := by rw [← is]; rfl
      rw [enters, calcCtxEnter, if_pos invalid']
    refine ⟨fun i => ?_, .inr (.inl ?_), ?_⟩
    · have accounts : w.afterAccounting = w.accounted deltaFrame60 := by rw [← is]; rfl
      rw [accounts, accounted, if_pos invalid', ← is]
      rfl
    · rw [ticked, ← is]
      exact if_pos empty
    · rw [ticked, ← is]
      rfl

/-- A frame that cannot be played is charged to nobody. -/
theorem playbackCalc_invalid (empty : s.running = []) (stands : s.control = .idle)
    (invalid : s.isValidForExecution = false) (deltaFrame60 : Nat) :
    (∀ i, (s.playbackCalc deltaFrame60).afterAccounting.ttl i = s.ttl i) ∧
      (s.playbackCalc deltaFrame60).tick.Playing ∧
      (s.playbackCalc deltaFrame60).tick.elapsedPlayback60 = s.elapsedPlayback60 := by
  unfold playbackCalc
  cases aborting : s.isAbortReq with
  | false =>
    rw [abortStackImpl_of_quiet aborting]
    exact resume_invalid empty (.inl stands) invalid deltaFrame60
  | true =>
    have stands' := s.abortStackImpl_control.imp_left fun same => same.trans stands
    obtain ⟨modules, discards, control, cleared⟩ := abortStackImpl_spec aborting
    generalize s.abortStackImpl = u at stands' cleared
    have ttls (i : Nat) : u.ttl i = s.ttl i := by
      rw [cleared]
      show (if i < MAX_MODULE_STACK_DEPTH then clearedSlot (s.moduleStack i)
        else s.moduleStack i).state.inputTTL60 = s.ttl i
      split <;> rfl
    have vacant : u.isValidForExecution = false := by
      rw [cleared]
      simp [isValidForExecution, getSP, clearedSlot, MAX_MODULE_STACK_DEPTH]
    obtain ⟨kept, playing, elapsed⟩ := resume_invalid (s := u) (by rw [cleared]; exact empty)
      stands' vacant deltaFrame60
    exact ⟨fun i => (kept i).trans (ttls i), playing, elapsed.trans (by rw [cleared])⟩

/-- The frame time is charged once and to the right slot exactly when there is none, or
the top can be played and the applied input is in reach of the accounting. -/
theorem chargedOnce_iff (reached : scheduler.Reachable p) (active : p.isPlaybackActive = true)
    (between : SinceFrame p s) (stands : s.control = .idle) (calm : s.isFrameAdvance = false)
    (unblocked : s.isBlockedFromScheduling.1 = false) {deltaFrame60 : Nat}
    (word : deltaFrame60 < 2 ^ 32) :
    ChargedOnce p s deltaFrame60 ↔
      deltaFrame60 = 0 ∨ (s.isValidForExecution = true ∧ ChargesApplied p s) := by
  have reached' := between.reachable reached
  obtain ⟨stack, empty⟩ := reachable_idle reached' stands
  have interval := between.interval
  have small := elapsed_lt reached'
  have inv := inv_playbackCalc stack stands empty deltaFrame60
  generalize first : s.playbackCalc deltaFrame60 = w at inv
  have once := w.charged_once
  -- the elapsed playback stays what it is after the first tick
  have stays {elapsed60 : Nat} (word : elapsed60 < 2 ^ 32) (playing : w.tick.Playing)
      (now : w.tick.elapsedPlayback60 = elapsed60) (n : Nat) :
      (tick^[n + 1] w).elapsedPlayback60 = elapsed60 := by
    have later : w.tick.Later elapsed60 := ⟨inv_tick inv, playing, w.noTime_tick, now⟩
    rw [Function.iterate_succ_apply]
    exact (later.iterate word n).elapsed
  cases valid : s.isValidForExecution with
  | false =>
    obtain ⟨kept, playing, elapsed⟩ := playbackCalc_invalid empty stands valid deltaFrame60
    rw [first] at kept playing elapsed
    constructor
    · intro charged
      have grows := charged.elapsed 0
      rw [first] at grows
      have same : s.elapsedPlayback60 = u32 (s.elapsedPlayback60 + deltaFrame60) :=
        elapsed.symm.trans grows
      unfold u32 at same
      omega
    · rintro (rfl | ⟨absurd_, -⟩)
      · refine ⟨fun i => ?_, first ▸ once, fun n => ?_⟩
        · rw [first, kept i, Nat.sub_zero, ite_self]
        · rw [first, show u32 (s.elapsedPlayback60 + 0) = _ from u32_of_lt small]
          exact stays small playing elapsed n
      · cases absurd_
  | true =>
    have quiet : s.isAbortReq = false := (isValidForExecution_iff.mp valid).1
    have active' : s.isPlaybackActive = true := interval.isPlaybackActive.trans active
    have enters : w = { s with control := .ctxEnter deltaFrame60 } := by
      rw [← first, playbackCalc, abortStackImpl_of_quiet quiet]
      exact playbackResume_enters (by simp [stands]) (.inl active') deltaFrame60
    have unblocked' : w.isBlockedFromScheduling.1 = false := by
      rw [enters, isBlockedFromScheduling_control]
      exact unblocked
    obtain ⟨charged, elapsed⟩ := accounted_calm (s := w) (by rw [enters]; exact valid) unblocked'
      (by rw [enters]; exact calm) deltaFrame60
    have accounts : w.afterAccounting = w.accounted deltaFrame60 := by rw [enters]; rfl
    have sameSlot : w.chargedSlot = s.chargedSlot := by rw [enters]; rfl
    have sameTtl (i : Nat) : w.ttl i = s.ttl i := by rw [enters]; rfl
    have grows : w.tick.elapsedPlayback60 = u32 (s.elapsedPlayback60 + deltaFrame60) := by
      have ticked : w.tick = w.calcCtxEnter deltaFrame60 := by rw [enters]; rfl
      rw [ticked, elapsed_of_clock (w.clock_calcCtxEnter deltaFrame60), elapsed, enters]
    have playing : w.tick.Playing := playing_tick inv (.inl (by rw [enters]; exact active'))
    have charge (i : Nat) : w.afterAccounting.ttl i =
        if i = s.chargedSlot then s.ttl i - deltaFrame60 else s.ttl i := by
      rw [accounts, charged i, sameSlot, sameTtl i]
    have all : ChargedOnce p s deltaFrame60 ↔
        ∀ i, (if i = s.chargedSlot then s.ttl i - deltaFrame60 else s.ttl i) =
          if i = p.moduleStackIndex then s.ttl i - deltaFrame60 else s.ttl i := by
      constructor
      · intro holds i
        rw [← charge i, ← first]
        exact holds.charged i
      · intro same
        refine ⟨fun i => ?_, first ▸ once, fun n => ?_⟩
        · rw [first, charge i, same i]
        · rw [first]
          exact stays (u32_lt _) playing grows n
    rw [all]
    rcases Nat.eq_zero_or_pos deltaFrame60 with rfl | some_
    · refine iff_of_true (fun i => ?_) (.inl rfl)
      rw [Nat.sub_zero, ite_self, ite_self]
    · rw [interval.charges_iff quiet some_]
      constructor
      · intro applied
        exact .inr ⟨rfl, applied⟩
      · rintro (rfl | ⟨-, applied⟩)
        · exact absurd some_ (Nat.lt_irrefl 0)
        · exact applied

/-- A hotkey that holds A for ten frames. -/
def holdA : Action :=
  .push (.hotkeyEval 7) ⟨true, false, true, true⟩ (.call (.input 20 1 ⟨0, 0⟩ ⟨0, 0⟩) .done)

/-- The end of the frame in which the hotkey's input is applied. -/
def heldA : Sched :=
  System.performAll Sched.perform [holdA, .frame 2, .tick, .tick, .tick, .tick] .init

theorem reachable_heldA : scheduler.Reachable heldA := by
  have boot : scheduler.Reachable .init := .start rfl
  have pushed := boot.step (step_perform holdA .init (by decide +kernel))
  have framed := pushed.step (step_perform (.frame 2) _ (by decide +kernel))
  have entered := framed.step (step_perform .tick _ (by decide +kernel))
  have checked := entered.step (step_perform .tick _ (by decide +kernel))
  have called := checked.step (step_perform .tick _ (by decide +kernel))
  exact called.step (step_perform .tick _ (by decide +kernel))

/-- The same hotkey once more is charged right. -/
theorem interruptOnce_chargedOnce : ChargedOnce heldA (heldA.perform holdA) 2 :=
  (chargedOnce_iff reachable_heldA (by decide +kernel)
    (.step .refl rfl (step_perform holdA heldA (by decide +kernel))) (by decide +kernel)
    (by decide +kernel) (by decide +kernel) (by decide)).mpr
    (.inr ⟨by decide +kernel, .inl (by decide +kernel), by decide +kernel⟩)

/-- Pressed twice in a frame, the input below both keeps the time it was applied for. -/
theorem interruptTwice_not_chargedOnce :
    scheduler.Reachable heldA ∧ heldA.isPlaybackActive = true ∧
      SinceFrame heldA ((heldA.perform holdA).perform holdA) ∧
      ((heldA.perform holdA).perform holdA).control = .idle ∧
      ((heldA.perform holdA).perform holdA).isBlockedFromScheduling.1 = false ∧
      ((heldA.perform holdA).perform holdA).isFrameAdvance = false ∧
      ¬ChargedOnce heldA ((heldA.perform holdA).perform holdA) 2 := by
  have first : SinceFrame heldA (heldA.perform holdA) :=
    .step .refl rfl (step_perform holdA heldA (by decide +kernel))
  have second : SinceFrame heldA ((heldA.perform holdA).perform holdA) :=
    .step first rfl (step_perform holdA _ (by decide +kernel))
  refine ⟨reachable_heldA, by decide +kernel, second, by decide +kernel, by decide +kernel,
    by decide +kernel, ?_⟩
  intro charged
  exact absurd (charged.charged 0) (by decide +kernel)

end Sched

end LotusKit.Schedule

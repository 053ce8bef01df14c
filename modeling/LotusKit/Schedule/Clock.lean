import LotusKit.Schedule.Push
import LotusKit.Schedule.Machine

/-! What the frame time accounting looks at and changes: whether frame advance is on, the
requests of DebugPause, and the time played back. Nothing else of the scheduler touches
them but the binds that are there for it. -/

namespace LotusKit.Schedule
open LotusKit.Lib.Transition

namespace Sched
variable (s : Sched)

/-- The requests of DebugPause, by frame advance and everyone else. -/
def debugPauses : Int := s.pauseRequestCount DebugPause

/-- Frame advance, the requests of DebugPause and the elapsed playback. -/
def clock : Bool × Int × Nat := (s.isFrameAdvance, s.debugPauses, s.elapsedPlayback60)

/-- The clock, what is left of the frames to step, and whether a script waits to begin. -/
def meter : (Bool × Int × Nat) × Nat × Bool :=
  (s.clock, s.bypassDebugPause60, s.isPlaybackBeginPending)

theorem meter_tryDiscardLastModuleForPop : s.tryDiscardLastModuleForPop.meter = s.meter := by
  unfold tryDiscardLastModuleForPop
  split
  · rfl
  · simp only
    split <;> rfl

theorem meter_inheritOnPop (sp : Nat) : (s.inheritOnPop sp).meter = s.meter := by
  unfold inheritOnPop
  split <;> rfl

theorem meter_calcCtxAfterExecute (sp : Nat) (asErrno : EContextState) :
    (s.calcCtxAfterExecute sp asErrno).meter = s.meter := by
  have popped := meter_tryDiscardLastModuleForPop (s.modifyCtx sp ScriptContext.unprepare)
  unfold calcCtxAfterExecute
  cases asErrno with
  | finished =>
    simp only
    split
    · exact popped
    · split
      · exact popped
      · exact (meter_inheritOnPop _ sp).trans popped
  | _ => rfl

theorem meter_executeReturn (sp : Nat) (status : EContextState) :
    (s.executeReturn sp status).meter = s.meter :=
  meter_calcCtxAfterExecute _ sp status

theorem meter_checkFlags (sp : Nat) : (s.checkFlags sp).meter = s.meter := by
  unfold checkFlags
  split
  · rfl
  · split <;> exact meter_executeReturn _ _ _

variable {s} in
theorem clock_of_meter {t : Sched} (same : t.meter = s.meter) : t.clock = s.clock :=
  congrArg Prod.fst same

theorem clock_clearSlots (slots : List Nat) :
    (slots.foldl (fun s i => s.clearSlot i) s).clock = s.clock := by
  induction slots generalizing s with
  | nil => rfl
  | cons i slots ih =>
    have cleared : (s.clearSlot i).clock = s.clock := by
      unfold clearSlot
      simp only
      split <;> rfl
    exact (ih (s.clearSlot i)).trans cleared

theorem clock_playbackCalc (deltaFrame60 : Nat) :
    (s.playbackCalc deltaFrame60).clock = s.clock := by
  have resumed (t : Sched) : (t.playbackResume deltaFrame60).clock = t.clock := by
    rcases t.playbackResume_cases deltaFrame60 with same | same
    · rw [same]
    · rw [same]
      rfl
  have aborted : s.abortStackImpl.clock = s.clock := by
    unfold abortStackImpl
    split
    · rfl
    · exact clock_clearSlots { s with isAbortReq := false } _
  exact (resumed _).trans aborted

theorem clock_enterSlot (sp m : Nat) (hasEntryPoint : Bool) (program : Script)
    (doImmediateExecute blockOnDebugPause : Bool) :
    (s.enterSlot sp m hasEntryPoint program doImmediateExecute blockOnDebugPause).clock = s.clock ∧
      (s.enterSlot sp m hasEntryPoint program doImmediateExecute blockOnDebugPause).isPlaybackActive =
        s.isPlaybackActive := by
  unfold enterSlot
  split
  · exact ⟨rfl, rfl⟩
  · simp only
    split
    · exact ⟨rfl, rfl⟩
    · split <;> exact ⟨rfl, rfl⟩

theorem clock_pushExecModuleEntryPoint (m : Nat) (hasEntryPoint : Bool) (program : Script)
    (doImmediateExecute blockOnDebugPause : Bool) :
    let t := s.pushExecModuleEntryPoint m hasEntryPoint program doImmediateExecute blockOnDebugPause
    t.clock = s.clock ∧ t.isPlaybackActive = s.isPlaybackActive := by
  have suspended : (if s.getSP.asCtx.status = .active then s.trySuspendCtx else s).clock = s.clock ∧
      (if s.getSP.asCtx.status = .active then s.trySuspendCtx else s).isPlaybackActive =
        s.isPlaybackActive := by
    split <;> exact ⟨rfl, rfl⟩
  unfold pushExecModuleEntryPoint
  generalize (if s.getSP.asCtx.status = .active then s.trySuspendCtx else s) = u at suspended
  have entered (v : Sched) (sp : Nat) (same : v.clock = u.clock)
      (active : v.isPlaybackActive = u.isPlaybackActive) :
      let t := v.enterSlot sp m hasEntryPoint program doImmediateExecute blockOnDebugPause
      t.clock = s.clock ∧ t.isPlaybackActive = s.isPlaybackActive := by
    obtain ⟨clock, active'⟩ :=
      v.clock_enterSlot sp m hasEntryPoint program doImmediateExecute blockOnDebugPause
    exact ⟨(clock.trans same).trans suspended.1, (active'.trans active).trans suspended.2⟩
  simp only
  split
  · exact entered _ _ rfl rfl
  · split
    · exact entered _ _ rfl rfl
    · exact suspended

variable {s} {t : Sched}

theorem Pushed.clock {target : PushTarget} {answers : ScriptSource} {program : Script}
    {doImmediateExecute blockOnDebugPause : Bool}
    (pushed : Pushed s target answers program doImmediateExecute blockOnDebugPause t) :
    t.clock = s.clock ∧ t.isPlaybackActive = s.isPlaybackActive := by
  cases pushed with
  | refused reason _ => exact ⟨rfl, rfl⟩
  | @entered m u _ provided =>
    have kept : u.clock = s.clock ∧ u.isPlaybackActive = s.isPlaybackActive := by
      cases provided <;> exact ⟨rfl, rfl⟩
    obtain ⟨clock, active⟩ := u.clock_pushExecModuleEntryPoint m answers.hasEntryPoint program
      doImmediateExecute blockOnDebugPause
    exact ⟨clock.trans kept.1, active.trans kept.2⟩

variable (s)

/-- Scheduling an input starts the time over only when nothing was played back before. -/
theorem meter_setCurrentInput (active : s.isPlaybackActive = true) (duration : Nat)
    (nextButtons : BitVec 64) (l r : AnalogStickState) :
    (s.setCurrentInput duration nextButtons l r).meter = s.meter := by
  have begun (t : Sched) (on : t.isPlaybackActive = true) :
      ({ (if t.isPlaybackActive then t else { t with elapsedPlayback60 := 0 }) with
        isPlaybackActive := true } : Sched).meter = t.meter := by
    rw [if_pos on]
    rfl
  simp only [setCurrentInput]
  split
  · exact begun _ active
  · exact begun _ active

theorem isFrameAdvance_setCurrentInput (duration : Nat) (nextButtons : BitVec 64)
    (l r : AnalogStickState) :
    (s.setCurrentInput duration nextButtons l r).isFrameAdvance = s.isFrameAdvance := by
  simp only [setCurrentInput]
  split <;> split <;> rfl

/-- The bind that the next tick calls. -/
def nextBind : Option Bind :=
  match s.control, s.running with
  | .run, sp :: _ =>
    match (s.moduleStack sp).asCtx.program with
    | .call bind _ => some bind
    | _ => none
  | _, _ => none

/-- A tick enters the scheduler, calls a bind, or leaves the clock alone. -/
inductive TickClock (s : Sched) : Prop
  | enters (deltaFrame60 : Nat) : s.control = .ctxEnter deltaFrame60 →
      s.tick = s.calcCtxEnter deltaFrame60 → s.nextBind = none → TickClock s
  | calls (sp : Nat) (bind : Bind) (rest : Script) : s.control = .run → s.nextBind = some bind →
      s.tick = (s.setProgram sp rest).callBind bind → TickClock s
  | other : s.nextBind = none → (∀ deltaFrame60, s.control ≠ .ctxEnter deltaFrame60) →
      s.tick.clock = s.clock → TickClock s

theorem tickClock : TickClock s := by
  cases stands : s.control with
  | ctxEnter deltaFrame60 =>
    exact .enters deltaFrame60 stands (by simp only [tick, stands]) (by simp only [nextBind, stands])
  | idle => exact .other (by simp only [nextBind, stands]) (by simp [stands]) (by simp [tick, stands])
  | fault => exact .other (by simp only [nextBind, stands]) (by simp [stands]) (by simp [tick, stands])
  | crash => exact .other (by simp only [nextBind, stands]) (by simp [stands]) (by simp [tick, stands])
  | boundary =>
    refine .other (by simp only [nextBind, stands]) (by simp [stands]) ?_
    cases running : s.running with
    | nil => simp [tick, stands, running]
    | cons sp rest =>
      simp only [tick, stands, running]
      exact clock_of_meter (s.meter_checkFlags sp)
  | run =>
    cases running : s.running with
    | nil =>
      exact .other (by simp only [nextBind, stands, running]) (by simp [stands])
        (by simp [tick, stands, running])
    | cons sp rest =>
      have ticked : s.tick = s.runStatement sp := by simp only [tick, stands, running]
      cases program : (s.moduleStack sp).asCtx.program with
      | done =>
        refine .other (by simp only [nextBind, stands, running, program]) (by simp [stands]) ?_
        simp only [ticked, runStatement, program]
        exact clock_of_meter (s.meter_executeReturn sp .finished)
      | throw =>
        refine .other (by simp only [nextBind, stands, running, program]) (by simp [stands]) ?_
        simp only [ticked, runStatement, program]
        exact clock_of_meter (s.meter_executeReturn sp .exception)
      | exec e child rest =>
        refine .other (by simp only [nextBind, stands, running, program]) (by simp [stands]) ?_
        simp only [ticked, runStatement, program]
        exact (pushed_pushExec _ e child).clock.1
      | call bind rest =>
        refine .calls sp bind rest stands (by simp only [nextBind, stands, running, program]) ?_
        simp only [ticked, runStatement, program]

/-- `t` is `s` but for what the script on top awaits. -/
structure OnlyAwaits (s t : Sched) : Prop where
  clock : t.clock = s.clock
  bypassDebugPause60 : t.bypassDebugPause60 = s.bypassDebugPause60
  isPlaybackActive : t.isPlaybackActive = s.isPlaybackActive
  isPlaybackBeginPending : t.isPlaybackBeginPending = s.isPlaybackBeginPending
  moduleStackIndex : t.moduleStackIndex = s.moduleStackIndex
  inputTTL60 : ∀ i, (t.moduleStack i).state.inputTTL60 = (s.moduleStack i).state.inputTTL60
  blockOnDebugPause : ∀ i,
    (t.moduleStack i).state.blockOnDebugPause = (s.moduleStack i).state.blockOnDebugPause

variable {s} {t u : Sched}

theorem OnlyAwaits.refl (s : Sched) : OnlyAwaits s s :=
  ⟨rfl, rfl, rfl, rfl, rfl, fun _ => rfl, fun _ => rfl⟩

theorem OnlyAwaits.trans (first : OnlyAwaits s t) (second : OnlyAwaits t u) : OnlyAwaits s u where
  clock := second.clock.trans first.clock
  bypassDebugPause60 := second.bypassDebugPause60.trans first.bypassDebugPause60
  isPlaybackActive := second.isPlaybackActive.trans first.isPlaybackActive
  isPlaybackBeginPending := second.isPlaybackBeginPending.trans first.isPlaybackBeginPending
  moduleStackIndex := second.moduleStackIndex.trans first.moduleStackIndex
  inputTTL60 i := (second.inputTTL60 i).trans (first.inputTTL60 i)
  blockOnDebugPause i := (second.blockOnDebugPause i).trans (first.blockOnDebugPause i)

variable (s)

theorem onlyAwaits_endAwaitPauseRequest : OnlyAwaits s s.endAwaitPauseRequest := by
  refine ⟨rfl, rfl, rfl, rfl, rfl, fun i => ?_, fun i => ?_⟩
  all_goals
    by_cases top : i = s.moduleStackIndex <;> simp [endAwaitPauseRequest, modifyState, top]

theorem onlyAwaits_endAwaitPauseTarget : OnlyAwaits s s.endAwaitPauseTarget := by
  refine ⟨rfl, rfl, rfl, rfl, rfl, fun i => ?_, fun i => ?_⟩
  all_goals
    by_cases top : i = s.moduleStackIndex <;> simp [endAwaitPauseTarget, modifyState, top]

theorem onlyAwaits_clearAwaitOf (hash : Nat) : OnlyAwaits s (s.clearAwaitOf hash) := by
  unfold clearAwaitOf
  split
  · exact s.onlyAwaits_endAwaitPauseRequest
  · exact .refl s

theorem onlyAwaits_isBlockedByAwait : OnlyAwaits s s.isBlockedByAwait.2 := by
  have request : OnlyAwaits s s.calcScheduleIsAwaitPauseRequest.2 := by
    unfold calcScheduleIsAwaitPauseRequest
    split
    · exact .refl s
    · split
      · exact .refl s
      · exact s.onlyAwaits_endAwaitPauseRequest
  have target (u : Sched) : OnlyAwaits u u.calcScheduleIsAwaitPauseTarget.2 := by
    unfold calcScheduleIsAwaitPauseTarget
    split
    · exact .refl u
    · split
      · exact .refl u
      · exact u.onlyAwaits_endAwaitPauseTarget
  simp only [isBlockedByAwait]
  split
  · exact request
  · exact request.trans (target _)

theorem onlyAwaits_isBlockedByLoadingPause : OnlyAwaits s s.isBlockedByLoadingPause.2 := by
  unfold isBlockedByLoadingPause
  split
  · exact s.onlyAwaits_clearAwaitOf _
  · exact s.onlyAwaits_isBlockedByAwait

theorem onlyAwaits_isBlockedFromScheduling : OnlyAwaits s s.isBlockedFromScheduling.2 := by
  have cleared := s.onlyAwaits_clearAwaitOf DebugPause
  simp only [isBlockedFromScheduling]
  split
  · exact .refl s
  · split
    · split
      · exact cleared.trans (onlyAwaits_isBlockedByLoadingPause _)
      · exact cleared
    · exact s.onlyAwaits_isBlockedByLoadingPause

variable {s}

theorem OnlyAwaits.chargedSlot (awaits : OnlyAwaits s t) : t.chargedSlot = s.chargedSlot := by
  unfold Sched.chargedSlot
  rw [awaits.isPlaybackBeginPending, awaits.moduleStackIndex, awaits.inputTTL60]

variable (s)

/-- `calcCtx` from `CTX_ENTER` on, up to where the frame time is accounted for. -/
def accounted (deltaFrame60 : Nat) : Sched :=
  if s.isValidForExecution = false then s
  else if s.isBlockedFromScheduling.1 then s.isBlockedFromScheduling.2
  else (s.isBlockedFromScheduling.2.calcConsumeFrametime_queryIsInputExhausted deltaFrame60).2

/-- Nothing after the accounting touches the clock. -/
theorem clock_calcCtxEnter (deltaFrame60 : Nat) :
    (s.calcCtxEnter deltaFrame60).clock = (s.accounted deltaFrame60).clock := by
  unfold calcCtxEnter accounted
  split
  · rfl
  · simp only
    split
    · rfl
    · split <;> rfl

end Sched

end LotusKit.Schedule

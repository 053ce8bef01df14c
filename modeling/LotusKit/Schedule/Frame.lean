import LotusKit.Schedule.Machine

/-! Frame conditions. Most of the scheduler only moves time and pauses around: it leaves
every script where it is. What remains is a handful of functions that touch a context. -/

namespace LotusKit.Schedule

namespace ScriptContext
variable (c : ScriptContext) (program : Script)

theorem abort_active : c.abort.status = .active ↔ c.status = .active := by
  by_cases suspended : c.status = .suspended <;> simp [abort, suspended]

theorem prepare_active : (c.prepare program).status = .active ↔ c.status = .active := by
  by_cases busy : c.status = .active ∨ c.status = .suspended
  · simp only [prepare, if_pos busy]
  · by_cases finished : c.status = .finished <;> simp_all [prepare]

theorem unprepare_active : c.unprepare.status = .active ↔ c.status = .active := by
  by_cases busy : c.status = .active ∨ c.status = .suspended
  · simp only [unprepare, if_pos busy]
  · simp_all [unprepare]

theorem abort_unprepare (idle : c.status ≠ .active) :
    c.abort.unprepare.status = .uninitialized := by
  have notActive : c.abort.status ≠ .active := mt c.abort_active.mp idle
  have notSuspended : c.abort.status ≠ .suspended := by
    by_cases suspended : c.status = .suspended <;> simp [abort, suspended]
  simp [unprepare, notActive, notSuspended]

end ScriptContext

namespace Sched

/-- `t` has the scripts of `s` where `s` has them; time, pauses and scheduled inputs may
differ. Memory past the array is not part of it. -/
structure SameScripts (s t : Sched) : Prop where
  isPlaybackBeginPending : t.isPlaybackBeginPending = s.isPlaybackBeginPending
  isAbortReq : t.isAbortReq = s.isAbortReq
  asModule : ∀ i, (t.moduleStack i).asModule = (s.moduleStack i).asModule
  asCtx : ∀ i, (t.moduleStack i).asCtx = (s.moduleStack i).asCtx
  moduleStackIndex : t.moduleStackIndex = s.moduleStackIndex
  modules : t.modules = s.modules
  builtModules : t.builtModules = s.builtModules
  discards : t.discards = s.discards
  running : t.running = s.running
  control : t.control = s.control
  outside : s.moduleStackIndex < MAX_MODULE_STACK_DEPTH →
    ∀ i, MAX_MODULE_STACK_DEPTH ≤ i → t.moduleStack i = s.moduleStack i

variable {s t u : Sched}

theorem SameScripts.refl (s : Sched) : SameScripts s s := by
  constructor <;> intros <;> rfl

theorem SameScripts.trans (first : SameScripts s t) (second : SameScripts t u) :
    SameScripts s u where
  isPlaybackBeginPending := second.isPlaybackBeginPending.trans first.isPlaybackBeginPending
  isAbortReq := second.isAbortReq.trans first.isAbortReq
  asModule i := (second.asModule i).trans (first.asModule i)
  asCtx i := (second.asCtx i).trans (first.asCtx i)
  moduleStackIndex := second.moduleStackIndex.trans first.moduleStackIndex
  modules := second.modules.trans first.modules
  builtModules := second.builtModules.trans first.builtModules
  discards := second.discards.trans first.discards
  running := second.running.trans first.running
  control := second.control.trans first.control
  outside inside i past :=
    (second.outside (first.moduleStackIndex ▸ inside) i past).trans (first.outside inside i past)

variable (s : Sched) (i : Nat)

theorem sameScripts_modifyState
    (inside : s.moduleStackIndex < MAX_MODULE_STACK_DEPTH → i < MAX_MODULE_STACK_DEPTH)
    (f : ModuleStackFrameScheduleState → ModuleStackFrameScheduleState) :
    SameScripts s (s.modifyState i f) := by
  have slot (j : Nat) : ((s.modifyState i f).moduleStack j).asModule = (s.moduleStack j).asModule ∧
      ((s.modifyState i f).moduleStack j).asCtx = (s.moduleStack j).asCtx := by
    by_cases same : j = i <;> simp [modifyState, same]
  refine ⟨rfl, rfl, fun j => (slot j).1, fun j => (slot j).2, rfl, rfl, rfl, rfl, rfl, rfl,
    fun top j past => ?_⟩
  have different : j ≠ i := by
    have := inside top
    omega
  simp [modifyState, different]

/-- The state of the slot on top is the scheduler's to change. -/
theorem sameScripts_modifyTop
    (f : ModuleStackFrameScheduleState → ModuleStackFrameScheduleState) :
    SameScripts s (s.modifyState s.moduleStackIndex f) :=
  s.sameScripts_modifyState _ id f

theorem sameScripts_requestPause (hash : Nat) : SameScripts s (s.requestPause hash) := by
  constructor <;> intros <;> rfl

theorem sameScripts_releasePause (hash : Nat) : SameScripts s (s.releasePause hash) := by
  constructor <;> intros <;> rfl

theorem sameScripts_clearAwaitOf (hash : Nat) : SameScripts s (s.clearAwaitOf hash) := by
  unfold clearAwaitOf
  split
  · exact s.sameScripts_modifyTop _
  · exact .refl s

theorem sameScripts_endAwaitPauseRequest : SameScripts s s.endAwaitPauseRequest :=
  s.sameScripts_modifyTop _

theorem sameScripts_endAwaitPauseTarget : SameScripts s s.endAwaitPauseTarget :=
  s.sameScripts_modifyTop _

theorem sameScripts_calcScheduleIsAwaitPauseRequest :
    SameScripts s s.calcScheduleIsAwaitPauseRequest.2 := by
  unfold calcScheduleIsAwaitPauseRequest
  split
  · exact .refl s
  · split
    · exact .refl s
    · exact s.sameScripts_endAwaitPauseRequest

theorem sameScripts_calcScheduleIsAwaitPauseTarget :
    SameScripts s s.calcScheduleIsAwaitPauseTarget.2 := by
  unfold calcScheduleIsAwaitPauseTarget
  split
  · exact .refl s
  · split
    · exact .refl s
    · exact s.sameScripts_endAwaitPauseTarget

theorem sameScripts_isBlockedByAwait : SameScripts s s.isBlockedByAwait.2 := by
  simp only [isBlockedByAwait]
  have request := s.sameScripts_calcScheduleIsAwaitPauseRequest
  split
  · exact request
  · exact request.trans (sameScripts_calcScheduleIsAwaitPauseTarget _)

theorem sameScripts_isBlockedByLoadingPause : SameScripts s s.isBlockedByLoadingPause.2 := by
  unfold isBlockedByLoadingPause
  split
  · exact s.sameScripts_clearAwaitOf _
  · exact s.sameScripts_isBlockedByAwait

theorem sameScripts_isBlockedFromScheduling : SameScripts s s.isBlockedFromScheduling.2 := by
  simp only [isBlockedFromScheduling]
  have cleared := s.sameScripts_clearAwaitOf DebugPause
  split
  · exact .refl s
  · split
    · split
      · exact cleared.trans (sameScripts_isBlockedByLoadingPause _)
      · exact cleared
    · exact s.sameScripts_isBlockedByLoadingPause

theorem sameScripts_calcFrameAdvance (slot deltaFrame60 : Nat) :
    SameScripts s (s.calcFrameAdvance slot deltaFrame60).1 := by
  simp only [calcFrameAdvance]
  split
  · exact s.sameScripts_requestPause _
  · split
    · exact .refl s
    · split
      · exact .refl s
      · split
        · exact s.sameScripts_releasePause _
        · split
          · constructor <;> intros <;> rfl
          · constructor <;> intros <;> rfl

theorem chargedSlot_le : s.chargedSlot ≤ s.moduleStackIndex := by
  unfold chargedSlot
  split <;> omega

theorem sameScripts_deductFrametime {slot : Nat}
    (inside : s.moduleStackIndex < MAX_MODULE_STACK_DEPTH → slot < MAX_MODULE_STACK_DEPTH)
    (deltaFrame60 : Nat) (aware : Bool) :
    SameScripts s (s.deductFrametime slot deltaFrame60 aware) := by
  simp only [deductFrametime]
  have deducted := s.sameScripts_modifyState slot inside fun state =>
    { state with inputTTL60 := state.inputTTL60 - deltaFrame60 }
  split
  · exact deducted
  · refine deducted.trans ?_
    constructor <;> intros <;> rfl

theorem sameScripts_calcConsumeFrametime (deltaFrame60 : Nat) :
    SameScripts s (s.calcConsumeFrametime_queryIsInputExhausted deltaFrame60).2 := by
  simp only [calcConsumeFrametime_queryIsInputExhausted]
  have inside (top : s.moduleStackIndex < MAX_MODULE_STACK_DEPTH) :
      s.chargedSlot < MAX_MODULE_STACK_DEPTH := Nat.lt_of_le_of_lt s.chargedSlot_le top
  by_cases advancing : s.isFrameAdvance = true
  · have advanced := s.sameScripts_calcFrameAdvance s.chargedSlot deltaFrame60
    simp only [if_pos advancing]
    split
    · exact advanced.trans (sameScripts_deductFrametime _ (advanced.moduleStackIndex ▸ inside) _ _)
    · exact advanced
  · simp only [if_neg advancing, if_true]
    exact s.sameScripts_deductFrametime inside _ _

theorem sameScripts_beginFrameAdvance : SameScripts s s.beginFrameAdvance := by
  simp only [beginFrameAdvance]
  constructor <;> intros <;> split <;> split <;> rfl

theorem sameScripts_stepFrameAdvance (duration : Nat) :
    SameScripts s (s.stepFrameAdvance duration) := by
  have begun : SameScripts s (if s.isFrameAdvance then s else s.beginFrameAdvance) := by
    split
    · exact .refl s
    · exact s.sameScripts_beginFrameAdvance
  refine begun.trans ?_
  constructor <;> intros <;> rfl

theorem sameScripts_emit (e : Event) : SameScripts s (s.emit e) := by
  constructor <;> intros <;> rfl

variable {s}

theorem SameScripts.trySuspendCtx (same : SameScripts s t) :
    SameScripts s.trySuspendCtx t.trySuspendCtx where
  isPlaybackBeginPending := same.isPlaybackBeginPending
  isAbortReq := same.isAbortReq
  asModule i := by
    have slot := same.asModule i
    by_cases top : i = s.moduleStackIndex <;>
      simp_all [Sched.trySuspendCtx, modifyCtx, same.moduleStackIndex]
  asCtx i := by
    have slot := same.asCtx i
    by_cases top : i = s.moduleStackIndex <;>
      simp_all [Sched.trySuspendCtx, modifyCtx, same.moduleStackIndex]
  moduleStackIndex := same.moduleStackIndex
  modules := same.modules
  builtModules := same.builtModules
  discards := same.discards
  running := same.running
  control := same.control
  outside inside i past := by
    have inside' : s.moduleStackIndex < MAX_MODULE_STACK_DEPTH := inside
    have different : i ≠ s.moduleStackIndex := by omega
    simpa [Sched.trySuspendCtx, modifyCtx, same.moduleStackIndex, different] using
      same.outside inside' i past

variable (s)

/-- What scheduling an input does to the scripts: nothing, or ask the one on top to
suspend. -/
theorem setCurrentInput_scripts (duration : Nat) (nextButtons : BitVec 64)
    (l r : AnalogStickState) :
    SameScripts s (s.setCurrentInput duration nextButtons l r) ∨
      SameScripts s.trySuspendCtx (s.setCurrentInput duration nextButtons l r) := by
  have active (u : Sched) :
      SameScripts u { (if u.isPlaybackActive then u else { u with elapsedPlayback60 := 0 }) with
        isPlaybackActive := true } := by
    split <;> (constructor <;> intros <;> rfl)
  simp only [setCurrentInput]
  have scheduled := ((s.sameScripts_emit (.input s.moduleStackIndex (s.duration60 duration)
    (scheduledInput nextButtons l r))).trans (sameScripts_modifyTop _ fun state =>
      { state with
        inputTTL60 := s.duration60 duration
        input := scheduledInput nextButtons l r
        playbackInputPassthroughMode := .playbackTasOnly })).trans (active _)
  split
  · exact .inr scheduled.trySuspendCtx
  · exact .inl scheduled

/-- A frame returns at once, or looks at the script on top. -/
theorem playbackResume_cases (deltaFrame60 : Nat) :
    s.playbackResume deltaFrame60 = s ∨
      s.playbackResume deltaFrame60 = { s with control := .ctxEnter deltaFrame60 } := by
  unfold playbackResume
  split
  · exact .inl rfl
  · split
    · exact .inl rfl
    · exact .inr rfl

variable {s} in
theorem playbackResume_enters (whole : s.control ≠ .crash)
    (plays : s.isPlaybackActive = true ∨ s.isPlaybackBeginPending = true) (deltaFrame60 : Nat) :
    s.playbackResume deltaFrame60 = { s with control := .ctxEnter deltaFrame60 } := by
  rw [playbackResume, if_neg whole, if_neg]
  rcases plays with active | pending <;> simp [*]

/-- A bind aborts, leaves every script where it is, or asks the one on top to suspend. -/
theorem callBind_cases (bind : Bind) :
    (∃ reason, bind = .abort reason ∧ s.callBind bind = s.abortStackReq reason) ∨
      SameScripts s (s.callBind bind) ∨ SameScripts s.trySuspendCtx (s.callBind bind) := by
  have schedule (mode : PlaybackInputPassthroughMode) (duration : Nat) (b : BitVec 64)
      (l r : AnalogStickState) :
      SameScripts s ((s.setCurrentInput duration b l r).setMode mode) ∨
        SameScripts s.trySuspendCtx ((s.setCurrentInput duration b l r).setMode mode) :=
    (s.setCurrentInput_scripts duration b l r).imp
      (fun kept => kept.trans (sameScripts_modifyTop _ _))
      (fun kept => kept.trans (sameScripts_modifyTop _ _))
  have state (f : ModuleStackFrameScheduleState → ModuleStackFrameScheduleState) :
      SameScripts s (s.modifyState s.moduleStackIndex f) := s.sameScripts_modifyTop f
  have await (set : ModuleStackFrameScheduleState → ModuleStackFrameScheduleState) (v : Bool) :
      SameScripts s.trySuspendCtx (s.scheduleAwait set v) := by
    have awaiting := s.sameScripts_modifyTop fun state =>
      set { state with awaitPauseVal := v, awaitBegin60 := s.elapsedPlayback60 }
    refine (awaiting.trans (u := { s.modifyState s.moduleStackIndex fun state =>
      set { state with awaitPauseVal := v, awaitBegin60 := s.elapsedPlayback60 } with
        isPlaybackActive := true }) ?_).trySuspendCtx
    constructor <;> intros <;> rfl
  cases bind with
  | input duration b l r => exact .inr (s.setCurrentInput_scripts duration b l r)
  | inputOr duration b l r => exact .inr (schedule _ duration b l r)
  | inputXor duration b l r => exact .inr (schedule _ duration b l r)
  | sleep duration => exact .inr (schedule _ duration _ _ _)
  | awaitPauseRequest hash => simp only [callBind, doScheduleAwaitPauseRequest, await, or_true]
  | awaitUnpauseRequest hash => simp only [callBind, doScheduleAwaitUnpauseRequest, await, or_true]
  | awaitPauseTarget hash => simp only [callBind, doScheduleAwaitPauseTarget, await, or_true]
  | awaitUnpauseTarget hash => simp only [callBind, doScheduleAwaitUnpauseTarget, await, or_true]
  | doBlockOnDebugPause v => simp only [callBind, doBlockOnDebugPause, state, true_or, or_true]
  | doBlockOnLoadingPause v => simp only [callBind, doBlockOnLoadingPause, state, true_or, or_true]
  | beginFrameAdvance => exact .inr (.inl s.sameScripts_beginFrameAdvance)
  | stepFrameAdvance duration => exact .inr (.inl (s.sameScripts_stepFrameAdvance duration))
  | endFrameAdvance => exact .inr (.inl (by constructor <;> intros <;> rfl))
  | requestPause hash => exact .inr (.inl (s.sameScripts_requestPause hash))
  | releasePause hash => exact .inr (.inl (s.sameScripts_releasePause hash))
  | abort reason => exact .inl ⟨reason, rfl, rfl⟩
  | other => exact .inr (.inl (.refl s))

end Sched

end LotusKit.Schedule

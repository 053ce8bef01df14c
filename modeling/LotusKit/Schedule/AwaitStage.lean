import LotusKit.Schedule.AwaitModel
import LotusKit.Schedule.Reachable

/-! The scheduler follows the model of awaits: what its functions do to the stack, to the
scripts being executed and to the awaits in force. -/

namespace LotusKit.Schedule

/-- What an await bind waits for. -/
def Bind.await : Bind → Option Await
  | .awaitPauseRequest hash => some ⟨false, hash, true⟩
  | .awaitUnpauseRequest hash => some ⟨false, hash, false⟩
  | .awaitPauseTarget hash => some ⟨true, hash, true⟩
  | .awaitUnpauseTarget hash => some ⟨true, hash, false⟩
  | _ => none

def Event.executed : Event → Option Nat
  | .execute slot => some slot
  | _ => none

def ModuleStackFrameScheduleState.awaits (state : ModuleStackFrameScheduleState) : Awaits :=
  ⟨state.isAwaitPauseRequestHash, state.isAwaitPauseTargetHash, state.awaitPauseVal⟩

namespace Sched

/-- DebugPause holds up the script on top: it blocks on it, and frame advance does not
let it pass. -/
def StopsOnDebugPause (s : Sched) : Prop :=
  s.isPauseRequest DebugPause = true ∧ s.getSP.state.blockOnDebugPause = true ∧
    ¬(s.isFrameAdvance = true ∧ 0 < s.bypassDebugPause60)

def StopsOnLoadingPause (s : Sched) : Prop :=
  s.isPauseRequest LoadingPause = true ∧ s.getSP.state.blockOnLoadingPause = true

/-- The request count or the target bit is as awaited. -/
def Meets (s : Sched) (await : Await) : Prop :=
  (if await.isTarget then s.targetPaused await.hash else s.isPauseRequest await.hash) =
    await.awaitPauseVal

/-- `calcCtx` looks at the script on top, and the awaited condition holds. That a script
awaits a pause it blocks on is seen although the pause holds it up. -/
structure Sees (s : Sched) (await : Await) : Prop where
  looks : ∃ deltaFrame60, s.control = .ctxEnter deltaFrame60
  valid : s.isValidForExecution = true
  notPending : s.isPlaybackBeginPending = false
  met : s.Meets await
  unblocked : (¬s.StopsOnDebugPause ∧ ¬s.StopsOnLoadingPause) ∨
    (await = ⟨false, DebugPause, true⟩ ∧ s.getSP.state.blockOnDebugPause = true) ∨
    (await = ⟨false, LoadingPause, true⟩ ∧ s.StopsOnLoadingPause ∧ ¬s.StopsOnDebugPause)

/-- The scheduler as far as awaits go. -/
def stage (s : Sched) : Stage where
  moduleStackIndex := s.moduleStackIndex
  isPlaybackBeginPending := s.isPlaybackBeginPending
  running := s.running
  asModule i := (s.moduleStack i).asModule
  doSuspend i := (s.moduleStack i).asCtx.doSuspend
  awaits i := (s.moduleStack i).state.awaits
  executed := s.events.filterMap Event.executed

section Stage
variable (s : Sched)

theorem stage_modifyState (i : Nat)
    (f : ModuleStackFrameScheduleState → ModuleStackFrameScheduleState) :
    (s.modifyState i f).stage =
      { s.stage with
        awaits := Function.update s.stage.awaits i (f (s.moduleStack i).state).awaits } := by
  simp only [stage, modifyState, modifySlot, Stage.mk.injEq, true_and, and_true]
  refine ⟨?_, ?_, ?_⟩
  all_goals
    funext j
    by_cases same : j = i
    · subst same
      simp
    · simp [same]

theorem stage_modifyState_of_same (i : Nat)
    {f : ModuleStackFrameScheduleState → ModuleStackFrameScheduleState}
    (same : ∀ state, (f state).awaits = state.awaits) : (s.modifyState i f).stage = s.stage := by
  rw [stage_modifyState, same]
  exact congrArg (fun awaits => { s.stage with awaits := awaits })
    (Function.update_eq_self i s.stage.awaits)

theorem stage_modifyCtx (i : Nat) (f : ScriptContext → ScriptContext) :
    (s.modifyCtx i f).stage =
      { s.stage with
        doSuspend := Function.update s.stage.doSuspend i (f (s.moduleStack i).asCtx).doSuspend } := by
  simp only [stage, modifyCtx, modifySlot, Stage.mk.injEq, true_and, and_true]
  refine ⟨?_, ?_, ?_⟩
  all_goals
    funext j
    by_cases same : j = i
    · subst same
      simp
    · simp [same]

theorem stage_setModule (i : Nat) (m : Option Nat) :
    (s.setModule i m).stage =
      { s.stage with asModule := Function.update s.stage.asModule i m } := by
  simp only [stage, setModule, modifySlot, Stage.mk.injEq, true_and, and_true]
  refine ⟨?_, ?_, ?_⟩
  all_goals
    funext j
    by_cases same : j = i
    · subst same
      simp
    · simp [same]

theorem stage_emit {e : Event} (other : e.executed = none) : (s.emit e).stage = s.stage := by
  simp [stage, emit, other]

end Stage

/-- `u` is `s` after a look at the top, which may have ended an await. -/
def LooksTo (Ends : Await → Prop) (s u : Sched) : Prop :=
  ∃ w, (s.stage.awaits s.moduleStackIndex).Clears Ends w ∧
    u.stage = { s.stage with awaits := Function.update s.stage.awaits s.moduleStackIndex w }

section Looks
variable {Ends : Await → Prop} {s t u : Sched}

theorem LooksTo.refl (Ends : Await → Prop) (s : Sched) : LooksTo Ends s s := by
  refine ⟨_, .refl Ends _, ?_⟩
  rw [Function.update_eq_self]

theorem LooksTo.moduleStackIndex (looks : LooksTo Ends s t) :
    t.moduleStackIndex = s.moduleStackIndex := by
  obtain ⟨w, -, same⟩ := looks
  exact congrArg Stage.moduleStackIndex same

theorem LooksTo.trans (first : LooksTo Ends s t) (second : LooksTo Ends t u) : LooksTo Ends s u := by
  have index := first.moduleStackIndex
  obtain ⟨w, clears, same⟩ := first
  obtain ⟨w', clears', same'⟩ := second
  rw [index, same] at clears' same'
  simp only [Function.update_self, Function.update_idem] at clears' same'
  exact ⟨w', clears.trans clears', same'⟩

theorem looksTo_modifyState
    {f : ModuleStackFrameScheduleState → ModuleStackFrameScheduleState}
    (clears : s.getSP.state.awaits.Clears Ends (f s.getSP.state).awaits) :
    LooksTo Ends s (s.modifyState s.moduleStackIndex f) :=
  ⟨_, clears, s.stage_modifyState _ _⟩

theorem looksTo_endAwaitPauseRequest
    (ends : Ends ⟨false, s.getSP.state.isAwaitPauseRequestHash, s.getSP.state.awaitPauseVal⟩) :
    LooksTo Ends s s.endAwaitPauseRequest :=
  looksTo_modifyState ⟨rfl, .inr ⟨rfl, ends⟩, .inl rfl⟩

theorem looksTo_endAwaitPauseTarget
    (ends : Ends ⟨true, s.getSP.state.isAwaitPauseTargetHash, s.getSP.state.awaitPauseVal⟩) :
    LooksTo Ends s s.endAwaitPauseTarget :=
  looksTo_modifyState ⟨rfl, .inl rfl, .inr ⟨rfl, ends⟩⟩

theorem looksTo_clearAwaitOf {hash : Nat} (ends : Ends ⟨false, hash, true⟩) :
    LooksTo Ends s (s.clearAwaitOf hash) := by
  unfold clearAwaitOf
  split
  next awaits =>
    apply looksTo_endAwaitPauseRequest
    rwa [awaits.1, awaits.2]
  next => exact .refl Ends s

/-- The first of the two awaits: it is over, or still blocks. -/
theorem calcScheduleIsAwaitPauseRequest_looks (ends : ∀ await, s.Meets await → Ends await) :
    LooksTo Ends s s.calcScheduleIsAwaitPauseRequest.2 ∧
      s.calcScheduleIsAwaitPauseRequest.2.pauseRequestCount = s.pauseRequestCount ∧
      s.calcScheduleIsAwaitPauseRequest.2.targetPaused = s.targetPaused ∧
      (s.calcScheduleIsAwaitPauseRequest.1 = false →
        s.calcScheduleIsAwaitPauseRequest.2.getSP.state.isAwaitPauseRequestHash = 0) := by
  unfold calcScheduleIsAwaitPauseRequest
  split
  next none_ => exact ⟨.refl Ends s, rfl, rfl, fun _ => none_⟩
  next =>
    split
    next => exact ⟨.refl Ends s, rfl, rfl, nofun⟩
    next met =>
      refine ⟨looksTo_endAwaitPauseRequest (ends _ ?_), rfl, rfl, fun _ => ?_⟩
      · exact (not_not.mp met).symm
      · simp [endAwaitPauseRequest, modifyState]

theorem calcScheduleIsAwaitPauseTarget_looks (ends : ∀ await, s.Meets await → Ends await) :
    LooksTo Ends s s.calcScheduleIsAwaitPauseTarget.2 ∧
      (s.calcScheduleIsAwaitPauseTarget.1 = false →
        s.calcScheduleIsAwaitPauseTarget.2.getSP.state.isAwaitPauseRequestHash =
          s.getSP.state.isAwaitPauseRequestHash ∧
        s.calcScheduleIsAwaitPauseTarget.2.getSP.state.isAwaitPauseTargetHash = 0) := by
  unfold calcScheduleIsAwaitPauseTarget
  split
  next none_ => exact ⟨.refl Ends s, fun _ => ⟨rfl, none_⟩⟩
  next =>
    split
    next => exact ⟨.refl Ends s, nofun⟩
    next met =>
      refine ⟨looksTo_endAwaitPauseTarget (ends _ ?_), fun _ => ?_⟩
      · exact (not_not.mp met).symm
      · simp [endAwaitPauseTarget, modifyState]

theorem isBlockedByAwait_looks (ends : ∀ await, s.Meets await → Ends await) :
    LooksTo Ends s s.isBlockedByAwait.2 ∧
      (s.isBlockedByAwait.1 = false → s.isBlockedByAwait.2.getSP.state.awaits.Over) := by
  obtain ⟨looks, counts, targets, none_⟩ := calcScheduleIsAwaitPauseRequest_looks ends
  simp only [isBlockedByAwait]
  split
  next blocked => exact ⟨looks, fun free => Bool.noConfusion free⟩
  next free =>
    have ends' (await : Await) (met : s.calcScheduleIsAwaitPauseRequest.2.Meets await) :
        Ends await := by
      apply ends
      simpa only [Meets, isPauseRequest, counts, targets] using met
    obtain ⟨looks', beyond⟩ := calcScheduleIsAwaitPauseTarget_looks ends'
    refine ⟨looks.trans looks', fun free' => ⟨?_, (beyond free').2⟩⟩
    exact ((beyond free').1).trans (none_ (by simpa using free))

theorem isBlockedByLoadingPause_looks
    (special : s.StopsOnLoadingPause → Ends ⟨false, LoadingPause, true⟩)
    (ends : ¬s.StopsOnLoadingPause → ∀ await, s.Meets await → Ends await) :
    LooksTo Ends s s.isBlockedByLoadingPause.2 ∧
      (s.isBlockedByLoadingPause.1 = false → s.isBlockedByLoadingPause.2.getSP.state.awaits.Over) := by
  unfold isBlockedByLoadingPause
  split
  next stops => exact ⟨looksTo_clearAwaitOf (special stops), nofun⟩
  next passes => exact isBlockedByAwait_looks (ends passes)

/-- What a look needs of the pauses stays the same when an await is cleared. -/
theorem clearAwaitOf_pauses (s : Sched) (hash : Nat) :
    (∀ await, (s.clearAwaitOf hash).Meets await ↔ s.Meets await) ∧
      ((s.clearAwaitOf hash).StopsOnLoadingPause ↔ s.StopsOnLoadingPause) ∧
      (s.clearAwaitOf hash).isFrameAdvance = s.isFrameAdvance ∧
      (s.clearAwaitOf hash).bypassDebugPause60 = s.bypassDebugPause60 := by
  unfold clearAwaitOf
  split
  · refine ⟨fun _ => Iff.rfl, ?_, rfl, rfl⟩
    simp [StopsOnLoadingPause, isPauseRequest, endAwaitPauseRequest, modifyState]
  · exact ⟨fun _ => Iff.rfl, Iff.rfl, rfl, rfl⟩

/-- All that a look at the script on top can end is what it sees; and it lets a script
through that waits for nothing. -/
theorem isBlockedFromScheduling_looks (looks : ∃ deltaFrame60, s.control = .ctxEnter deltaFrame60)
    (valid : s.isValidForExecution = true) (notPending : s.isPlaybackBeginPending = false) :
    LooksTo s.Sees s s.isBlockedFromScheduling.2 ∧
      (s.isBlockedFromScheduling.1 = false →
        s.isBlockedFromScheduling.2.getSP.state.awaits.Over) := by
  simp only [isBlockedFromScheduling, notPending, Bool.false_eq_true, if_false]
  split
  next debug =>
    have cleared : LooksTo s.Sees s (s.clearAwaitOf DebugPause) :=
      looksTo_clearAwaitOf ⟨looks, valid, notPending, debug.1, .inr (.inl ⟨rfl, debug.2⟩)⟩
    obtain ⟨meets, loading, advance, bypass⟩ := s.clearAwaitOf_pauses DebugPause
    rw [advance, bypass]
    split
    next lets =>
      have passes : ¬s.StopsOnDebugPause := fun stops => stops.2.2 lets
      have next_ := @isBlockedByLoadingPause_looks s.Sees (s.clearAwaitOf DebugPause)
        (fun stops => ⟨looks, valid, notPending, (loading.mp stops).1,
          .inr (.inr ⟨rfl, loading.mp stops, passes⟩)⟩)
        (fun free await met => ⟨looks, valid, notPending, (meets await).mp met,
          .inl ⟨passes, mt loading.mpr free⟩⟩)
      exact ⟨cleared.trans next_.1, next_.2⟩
    next => exact ⟨cleared, fun free => Bool.noConfusion free⟩
  next other =>
    have passes : ¬s.StopsOnDebugPause := fun stops => other ⟨stops.1, stops.2.1⟩
    exact isBlockedByLoadingPause_looks
      (fun stops => ⟨looks, valid, notPending, stops.1, .inr (.inr ⟨rfl, stops, passes⟩)⟩)
      (fun free await met => ⟨looks, valid, notPending, met, .inl ⟨passes, free⟩⟩)

end Looks

section Moves
variable {s t u : Sched}

theorem stage_modifyCtx_of_same (s : Sched) (i : Nat) {f : ScriptContext → ScriptContext}
    (same : ∀ c, (f c).doSuspend = c.doSuspend) : (s.modifyCtx i f).stage = s.stage := by
  rw [stage_modifyCtx, same]
  exact congrArg (fun doSuspend => { s.stage with doSuspend := doSuspend })
    (Function.update_eq_self i s.stage.doSuspend)

theorem stage_calcFrameAdvance (s : Sched) (slot deltaFrame60 : Nat) :
    (s.calcFrameAdvance slot deltaFrame60).1.stage = s.stage := by
  simp only [calcFrameAdvance]
  split
  · rfl
  · split
    · rfl
    · split
      · rfl
      · split
        · rfl
        · split <;> rfl

theorem stage_calcConsumeFrametime (s : Sched) (deltaFrame60 : Nat) :
    (s.calcConsumeFrametime_queryIsInputExhausted deltaFrame60).2.stage = s.stage := by
  have deducted (u : Sched) (slot : Nat) (aware : Bool) :
      (u.deductFrametime slot deltaFrame60 aware).stage = u.stage := by
    have kept := u.stage_modifyState_of_same slot
      (f := fun state => { state with inputTTL60 := state.inputTTL60 - deltaFrame60 }) fun _ => rfl
    cases aware with
    | false => exact kept
    | true => exact kept
  have advanced := s.stage_calcFrameAdvance s.chargedSlot deltaFrame60
  simp only [calcConsumeFrametime_queryIsInputExhausted]
  by_cases advancing : s.isFrameAdvance = true
  · simp only [if_pos advancing]
    split
    · exact (deducted _ _ _).trans advanced
    · exact advanced
  · simp only [if_neg advancing, if_true]
    exact deducted _ _ _

theorem stage_beginExecute (s : Sched) :
    s.beginExecute.stage =
      { s.stage with
        running := s.moduleStackIndex :: s.running
        executed := s.stage.executed ++ [s.moduleStackIndex] } := by
  have kept := (s.emit (.execute s.moduleStackIndex)).stage_modifyCtx_of_same s.moduleStackIndex
    (f := fun c => { c with status := .active }) fun _ => rfl
  have emitted : (s.emit (.execute s.moduleStackIndex)).stage =
      { s.stage with executed := s.stage.executed ++ [s.moduleStackIndex] } := by
    simp [stage, emit, Event.executed]
  exact congrArg (fun v : Stage => { v with running := s.moduleStackIndex :: s.running })
    (kept.trans emitted)

/-- The step requests an abort, or ends the run. -/
def Stops (s t : Sched) : Prop :=
  (t.isAbortReq = true ∨ ¬t.Runs) ∧ t.stage.executed = s.stage.executed

theorem stops_abortStackReq (s : Sched) (reason : String) : Stops s (s.abortStackReq reason) := by
  refine ⟨.inl rfl, ?_⟩
  simp [stage, abortStackReq, emit, Event.executed]

/-- `calcCtx` from `CTX_ENTER` on is a look at the script on top, which may be executed. -/
theorem moves_calcCtxEnter (inv : s.StackInv) {deltaFrame60 : Nat}
    (stands : s.control = .ctxEnter deltaFrame60) :
    Stops s (s.calcCtxEnter deltaFrame60) ∨
      Stage.Moves s.Sees s.stage (s.calcCtxEnter deltaFrame60).stage := by
  unfold calcCtxEnter
  split
  next => exact .inl ⟨.inl rfl, (s.stops_abortStackReq _).2⟩
  next valid =>
    replace valid : s.isValidForExecution = true := by simpa using valid
    obtain ⟨-, taken, status⟩ := isValidForExecution_iff.mp valid
    have idle : s.moduleStackIndex ∉ s.running := by
      intro member
      have active : s.getSP.asCtx.status = .active := (inv.active _).mpr member
      rw [active] at status
      rcases status with is | is <;> cases is
    have begun (v : Sched) (w : Awaits)
        (same : v.stage = { s.stage with
          awaits := Function.update s.stage.awaits s.moduleStackIndex w })
        (clears : (s.stage.awaits s.moduleStackIndex).Clears s.Sees w)
        (beyond : s.isPlaybackBeginPending = false → w.Over) :
        Stage.Moves s.Sees s.stage { v with isPlaybackBeginPending := false }.beginExecute.stage := by
      have moved : Stage.Moves s.Sees s.stage _ := .executes w taken idle clears beyond
      have executed := ({ v with isPlaybackBeginPending := false } : Sched).stage_beginExecute
      have index : v.moduleStackIndex = s.moduleStackIndex := congrArg Stage.moduleStackIndex same
      have started : ({ v with isPlaybackBeginPending := false } : Sched).stage =
          { v.stage with isPlaybackBeginPending := false } := rfl
      have running : v.running = s.running := congrArg Stage.running same
      rw [executed, started, same]
      simp only [index, running]
      exact moved
    right
    cases pending : s.isPlaybackBeginPending with
    | true =>
      have unblocked : s.isBlockedFromScheduling = (false, s) := by
        simp only [isBlockedFromScheduling, pending, if_true]
      have charged := s.stage_calcConsumeFrametime deltaFrame60
      simp only [unblocked]
      generalize s.calcConsumeFrametime_queryIsInputExhausted deltaFrame60 = answer at charged ⊢
      obtain ⟨isInputExhausted, v⟩ := answer
      simp only [Bool.false_eq_true, if_false] at charged ⊢
      have still : v.isPlaybackBeginPending = true :=
        (congrArg Stage.isPlaybackBeginPending charged).trans pending
      rw [if_neg (by simp [still])]
      refine begun v _ ?_ (.refl s.Sees _) (by simp [pending])
      rw [Function.update_eq_self]
      exact charged
    | false =>
      obtain ⟨⟨w, clears, same⟩, beyond⟩ := isBlockedFromScheduling_looks ⟨_, stands⟩ valid pending
      generalize s.isBlockedFromScheduling = answer at same beyond ⊢
      obtain ⟨isBlocked, u⟩ := answer
      simp only at same beyond ⊢
      have charged := u.stage_calcConsumeFrametime deltaFrame60
      generalize u.calcConsumeFrametime_queryIsInputExhausted deltaFrame60 = answer at charged ⊢
      obtain ⟨isInputExhausted, v⟩ := answer
      simp only at charged ⊢
      have looked : Stage.Moves s.Sees s.stage u.stage := same ▸ .looks w clears
      split
      next => exact looked
      next free =>
        split
        next =>
          rw [← charged] at looked
          exact looked
        next =>
          refine begun v w (charged.trans same) clears fun _ => ?_
          have over' := beyond (by simpa using free)
          have index : u.moduleStackIndex = s.moduleStackIndex := congrArg Stage.moduleStackIndex same
          have top : u.getSP.state.awaits = w := by
            have slot := congrFun (congrArg Stage.awaits same) s.moduleStackIndex
            rw [getSP, index]
            exact slot.trans (Function.update_self _ _ _)
          rwa [top] at over'

theorem stage_leaveExecute {sp : Nat} {rest : List Nat} (running : s.running = sp :: rest)
    (status : EContextState) :
    (s.leaveExecute sp status).stage =
      { s.stage with running := rest, doSuspend := Function.update s.stage.doSuspend sp false } := by
  have left := s.stage_modifyCtx sp fun c =>
    { c with
      status := status
      doSuspend := false
      doAbort := if status = .aborted then false else c.doAbort }
  have popped : s.running.tail = rest := by rw [running, List.tail_cons]
  rw [← popped]
  exact congrArg (fun v : Stage => { v with running := s.running.tail }) left

/-- A script that was asked to suspend leaves at its next statement boundary. -/
theorem moves_checkFlags {sp : Nat} {rest : List Nat} (running : s.running = sp :: rest)
    (Ends : Await → Prop) : Stage.Moves Ends s.stage (s.checkFlags sp).stage := by
  unfold checkFlags
  split
  next => exact .stays
  next asked =>
    have asked' : s.stage.doSuspend sp = true := Bool.not_eq_false _ ▸ asked
    have leaves : Stage.Moves Ends s.stage _ := .leaves running asked'
    split
    · rw [← stage_leaveExecute running .aborted] at leaves
      exact leaves
    · rw [← stage_leaveExecute running .suspended] at leaves
      exact leaves

theorem stage_unprepare (s : Sched) (sp : Nat) :
    (s.modifyCtx sp ScriptContext.unprepare).stage = s.stage := by
  apply stage_modifyCtx_of_same
  intro c
  unfold ScriptContext.unprepare
  split <;> rfl

theorem stage_inheritOnPop (s : Sched) (sp : Nat) : (s.inheritOnPop sp).stage = s.stage := by
  unfold inheritOnPop
  split
  · exact s.stage_modifyState_of_same _ fun _ => rfl
  · rfl

/-- A script on top that ran to its end is popped, if that does not crash. -/
theorem stage_finished {rest : List Nat} (running : s.running = s.moduleStackIndex :: rest) :
    Stops s (s.executeReturn s.moduleStackIndex .finished) ∨
      (s.executeReturn s.moduleStackIndex .finished).stage =
        { s.stage with
          running := rest
          doSuspend := Function.update s.stage.doSuspend s.moduleStackIndex false
          asModule := Function.update s.stage.asModule s.moduleStackIndex none
          moduleStackIndex := s.moduleStackIndex - 1 } := by
  have left := stage_leaveExecute running .finished
  have unprepared := (s.leaveExecute s.moduleStackIndex .finished).stage_unprepare s.moduleStackIndex
  have index : ((s.leaveExecute s.moduleStackIndex .finished).modifyCtx s.moduleStackIndex
    ScriptContext.unprepare).moduleStackIndex = s.moduleStackIndex := rfl
  simp only [executeReturn, calcCtxAfterExecute]
  generalize (s.leaveExecute s.moduleStackIndex .finished).modifyCtx s.moduleStackIndex
    ScriptContext.unprepare = u at unprepared index ⊢
  obtain ⟨modules, discards, control, popped⟩ := tryDiscardLastModuleForPop_stack (s := u)
  have gone : u.tryDiscardLastModuleForPop.stage =
      { u.stage with asModule := Function.update u.stage.asModule u.moduleStackIndex none } := by
    rw [popped]
    exact u.stage_setModule u.moduleStackIndex none
  rw [unprepared, left, index] at gone
  have top : u.tryDiscardLastModuleForPop.moduleStackIndex = s.moduleStackIndex := by
    rw [tryDiscardLastModuleForPop_index, index]
  generalize u.tryDiscardLastModuleForPop = v at gone top ⊢
  split
  next crashed => exact .inl ⟨.inr fun runs => runs.2 crashed, congrArg (fun w => w.executed) gone⟩
  right
  split
  next bottom =>
    have zero : s.stage.moduleStackIndex = s.moduleStackIndex - 1 := by
      show s.moduleStackIndex = _
      omega
    rw [← zero]
    exact gone
  next =>
    have inherited := (v.stage_inheritOnPop s.moduleStackIndex).trans gone
    exact congrArg (fun w : Stage => { w with moduleStackIndex := w.moduleStackIndex - 1 }) inherited

theorem stage_trySuspendCtx (s : Sched) : s.trySuspendCtx.stage =
    { s.stage with doSuspend := Function.update s.stage.doSuspend s.moduleStackIndex true } :=
  s.stage_modifyCtx s.moduleStackIndex ScriptContext.suspend

/-- Scheduling an input leaves the awaits alone. -/
theorem stage_setCurrentInput (s : Sched) (duration : Nat) (nextButtons : BitVec 64)
    (l r : AnalogStickState) :
    (s.setCurrentInput duration nextButtons l r).stage = s.stage ∨
      (s.setCurrentInput duration nextButtons l r).stage = s.trySuspendCtx.stage := by
  have emitted := s.stage_emit (e := .input s.moduleStackIndex (s.duration60 duration)
    (scheduledInput nextButtons l r)) rfl
  have scheduled := (stage_modifyState_of_same _ s.moduleStackIndex
    (f := fun state =>
      { state with
        inputTTL60 := s.duration60 duration
        input := scheduledInput nextButtons l r
        playbackInputPassthroughMode := .playbackTasOnly }) fun _ => rfl).trans emitted
  have active (u : Sched) :
      ({ (if u.isPlaybackActive then u else { u with elapsedPlayback60 := 0 }) with
        isPlaybackActive := true } : Sched).stage = u.stage := by
    split <;> rfl
  have suspended (u : Sched) (same : u.stage = s.stage) :
      u.trySuspendCtx.stage = s.trySuspendCtx.stage := by
    have index : u.moduleStackIndex = s.moduleStackIndex := congrArg Stage.moduleStackIndex same
    rw [stage_trySuspendCtx, stage_trySuspendCtx, same, index]
  simp only [setCurrentInput]
  split
  · exact .inr (suspended _ ((active _).trans scheduled))
  · exact .inl ((active _).trans scheduled)

theorem stage_beginFrameAdvance (s : Sched) : s.beginFrameAdvance.stage = s.stage := by
  simp only [beginFrameAdvance]
  split <;> split <;> rfl

theorem stage_stepFrameAdvance (s : Sched) (duration : Nat) :
    (s.stepFrameAdvance duration).stage = s.stage := by
  simp only [stepFrameAdvance]
  split
  · rfl
  · exact s.stage_beginFrameAdvance

/-- The four await binds. -/
theorem stage_await (s : Sched) {bind : Bind} {await : Await} (awaits : bind.await = some await) :
    (s.callBind bind).stage =
      { s.stage with
        awaits := Function.update s.stage.awaits s.moduleStackIndex
          (await.begin (s.stage.awaits s.moduleStackIndex))
        doSuspend := Function.update s.stage.doSuspend s.moduleStackIndex true } := by
  have scheduled (set : ModuleStackFrameScheduleState → ModuleStackFrameScheduleState) (v : Bool) :
      (s.scheduleAwait set v).stage =
        { s.stage with
          awaits := Function.update s.stage.awaits s.moduleStackIndex
            (set { s.getSP.state with awaitPauseVal := v, awaitBegin60 := s.elapsedPlayback60 }).awaits
          doSuspend := Function.update s.stage.doSuspend s.moduleStackIndex true } := by
    have begun := s.stage_modifyState s.moduleStackIndex fun state =>
      set { state with awaitPauseVal := v, awaitBegin60 := s.elapsedPlayback60 }
    simp only [scheduleAwait, stage_trySuspendCtx]
    exact congrArg (fun u : Stage =>
      { u with doSuspend := Function.update u.doSuspend s.moduleStackIndex true }) begun
  cases bind <;> cases awaits <;> exact scheduled _ _

theorem moves_callBind {rest : List Nat} (running : s.running = s.moduleStackIndex :: rest)
    (goes : (s.moduleStack s.moduleStackIndex).asCtx.doSuspend = false) (bind : Bind)
    (Ends : Await → Prop) :
    Stops s (s.callBind bind) ∨ Stage.Moves Ends s.stage (s.callBind bind).stage := by
  have asks : Stage.Moves Ends s.stage s.trySuspendCtx.stage := by
    rw [stage_trySuspendCtx]
    exact .suspends running
  have inputs (duration : Nat) (b : BitVec 64) (l r : AnalogStickState) :
      Stage.Moves Ends s.stage (s.setCurrentInput duration b l r).stage := by
    rcases s.stage_setCurrentInput duration b l r with same | same
    · exact same ▸ .stays
    · exact same ▸ asks
  have modes (duration : Nat) (b : BitVec 64) (l r : AnalogStickState)
      (mode : PlaybackInputPassthroughMode) :
      Stage.Moves Ends s.stage ((s.setCurrentInput duration b l r).setMode mode).stage := by
    have kept : ((s.setCurrentInput duration b l r).setMode mode).stage =
        (s.setCurrentInput duration b l r).stage := stage_modifyState_of_same _ _ fun _ => rfl
    rw [kept]
    exact inputs duration b l r
  have keeps (f : ModuleStackFrameScheduleState → ModuleStackFrameScheduleState)
      (same : ∀ state, (f state).awaits = state.awaits) :
      Stage.Moves Ends s.stage (s.modifyState s.moduleStackIndex f).stage := by
    rw [stage_modifyState_of_same _ _ same]
    exact .stays
  cases awaits : bind.await with
  | some await =>
    right
    rw [s.stage_await awaits]
    exact .begins await running goes
  | none =>
    cases bind with
    | input duration b l r => exact .inr (inputs duration b l r)
    | inputOr duration b l r => exact .inr (modes duration b l r _)
    | inputXor duration b l r => exact .inr (modes duration b l r _)
    | sleep duration => exact .inr (modes duration _ _ _ _)
    | doBlockOnDebugPause v => exact .inr (keeps _ fun _ => rfl)
    | doBlockOnLoadingPause v => exact .inr (keeps _ fun _ => rfl)
    | beginFrameAdvance => exact .inr (s.stage_beginFrameAdvance ▸ .stays)
    | stepFrameAdvance duration => exact .inr (s.stage_stepFrameAdvance duration ▸ .stays)
    | abort reason => exact .inl (s.stops_abortStackReq reason)
    | endFrameAdvance => exact .inr .stays
    | requestPause hash => exact .inr .stays
    | releasePause hash => exact .inr .stays
    | other => exact .inr .stays
    | _ => cases awaits

/-- The slot that a push enters is the top if that is free, else the one above. -/
theorem moves_enterSlot {v : Sched} {sp : Nat}
    (place : sp = s.moduleStackIndex ∧ (s.moduleStack s.moduleStackIndex).asModule = none ∨
      sp = s.moduleStackIndex + 1)
    (apart : sp ∉ s.running) (asked : ∀ i ∈ s.running, (v.moduleStack i).asCtx.doSuspend = true)
    (same : ∃ w : Awaits, w.Over ∧ v.stage =
      { s.stage with
        awaits := Function.update s.stage.awaits sp w
        doSuspend := v.stage.doSuspend })
    (m : Nat) (hasEntryPoint : Bool) (program : Script)
    (doImmediateExecute blockOnDebugPause : Bool) (Ends : Await → Prop) :
    Stops s (v.enterSlot sp m hasEntryPoint program doImmediateExecute blockOnDebugPause) ∨
      Stage.Moves Ends s.stage
        (v.enterSlot sp m hasEntryPoint program doImmediateExecute blockOnDebugPause).stage := by
  obtain ⟨w, beyond, same⟩ := same
  have executed : v.stage.executed = s.stage.executed := by rw [same]
  unfold enterSlot
  split
  next => exact .inl ⟨.inl rfl, (v.stops_abortStackReq _).2.trans executed⟩
  next =>
    have given := (v.setModule sp (some m)).stage_modifyState_of_same sp
      (f := fun state => { state with blockOnDebugPause := blockOnDebugPause }) fun _ => rfl
    rw [v.stage_setModule] at given
    simp only
    generalize (v.setModule sp (some m)).modifyState sp _ = u at given ⊢
    split
    next =>
      exact .inl ⟨.inl rfl, ((u.stops_abortStackReq _).2.trans (congrArg Stage.executed given)).trans
        executed⟩
    next =>
      right
      have prepared := u.stage_modifyCtx sp (ScriptContext.prepare program)
      have others (i : Nat) (member : i ∈ s.running) :
          (u.modifyCtx sp (ScriptContext.prepare program)).stage.doSuspend i = true := by
        have different : i ≠ sp := fun is => apart (is ▸ member)
        have kept : u.stage.doSuspend i = v.stage.doSuspend i :=
          congrFun (congrArg Stage.doSuspend given) i
        rw [prepared]
        simp only [Function.update_of_ne different]
        exact kept.trans (asked i member)
      have pushed (pending : Bool) : Stage.Moves Ends s.stage
          { (u.modifyCtx sp (ScriptContext.prepare program)).stage with
            moduleStackIndex := sp, isPlaybackBeginPending := pending } := by
        have moved : Stage.Moves Ends s.stage _ := @Stage.Moves.pushes Ends s.stage sp m
          (u.modifyCtx sp (ScriptContext.prepare program)).stage.doSuspend pending w place apart others
          beyond
        rw [prepared, given, same] at moved ⊢
        exact moved
      split
      next => exact pushed _
      next => exact pushed true

theorem moves_pushExecModuleEntryPoint (ready : s.PushReady) (quiet : s.isAbortReq = false)
    (orderly : s.stage.Orderly) (m : Nat) (hasEntryPoint : Bool) (program : Script)
    (doImmediateExecute blockOnDebugPause : Bool) (Ends : Await → Prop) :
    let t := s.pushExecModuleEntryPoint m hasEntryPoint program doImmediateExecute blockOnDebugPause
    Stops s t ∨ Stage.Moves Ends s.stage t.stage := by
  obtain ⟨-, waiting, -⟩ := ready.suspend
  have suspended (w : Sched)
      (is : w = if s.getSP.asCtx.status = .active then s.trySuspendCtx else s) :
      w.stage = { s.stage with doSuspend := w.stage.doSuspend } ∧ w.isAbortReq = s.isAbortReq := by
    subst is
    split
    · exact ⟨by rw [stage_trySuspendCtx], rfl⟩
    · exact ⟨rfl, rfl⟩
  simp only [pushExecModuleEntryPoint]
  generalize is : (if s.getSP.asCtx.status = .active then s.trySuspendCtx else s) = u at waiting ⊢
  obtain ⟨same, kept⟩ := suspended u is.symm
  have index : u.moduleStackIndex = s.moduleStackIndex := congrArg (fun v => v.moduleStackIndex) same
  have running : u.running = s.running := congrArg (fun v => v.running) same
  have top : u.getSP.asModule = (s.moduleStack s.moduleStackIndex).asModule := by
    have slots := congrFun (congrArg (fun v => v.asModule) same) u.moduleStackIndex
    rw [getSP, ← index]
    exact slots
  have asked (i : Nat) (member : i ∈ s.running) : (u.moduleStack i).asCtx.doSuspend = true :=
    (waiting i (running ▸ member)).1
  have reset (sp : Nat) (f : ModuleStackFrameScheduleState → ModuleStackFrameScheduleState)
      (beyond : (f (u.moduleStack sp).state).awaits.Over) : ∃ w : Awaits, w.Over ∧
      (u.modifyState sp f).stage = { s.stage with
        awaits := Function.update s.stage.awaits sp w
        doSuspend := (u.modifyState sp f).stage.doSuspend } := by
    refine ⟨_, beyond, ?_⟩
    rw [stage_modifyState, same]
  have asked' (sp : Nat) (f : ModuleStackFrameScheduleState → ModuleStackFrameScheduleState)
      (i : Nat) (member : i ∈ s.running) :
      ((u.modifyState sp f).moduleStack i).asCtx.doSuspend = true := by
    have slots := congrFun (congrArg (fun v => v.doSuspend) (u.stage_modifyState sp f)) i
    exact slots.trans (asked i member)
  split
  next empty =>
    rw [top] at empty
    have apart : u.moduleStackIndex ∉ s.running := by
      rw [index]
      exact fun member => orderly.asModule _ member empty
    exact moves_enterSlot (.inl ⟨index, empty⟩) apart
      (asked' u.moduleStackIndex fun state =>
        (ModuleStackFrame.resetState { u.getSP with state := state }).state)
      (reset u.moduleStackIndex (fun state =>
        (ModuleStackFrame.resetState { u.getSP with state := state }).state) ⟨rfl, rfl⟩)
      m hasEntryPoint program doImmediateExecute blockOnDebugPause Ends
  next taken =>
    split
    next =>
      have apart : u.moduleStackIndex + 1 ∉ s.running := by
        intro member
        have below := (waiting _ (running ▸ member)).2 (kept.trans quiet)
        omega
      exact moves_enterSlot (.inr (by rw [index])) apart
        (asked' (u.moduleStackIndex + 1) fun state =>
          { (ModuleStackFrame.resetState { u.getSP with state := state }).state with
            input := u.getSP.state.input
            playbackInputPassthroughMode := u.getSP.state.playbackInputPassthroughMode })
        (reset (u.moduleStackIndex + 1) (fun state =>
          { (ModuleStackFrame.resetState { u.getSP with state := state }).state with
            input := u.getSP.state.input
            playbackInputPassthroughMode := u.getSP.state.playbackInputPassthroughMode }) ⟨rfl, rfl⟩)
        m hasEntryPoint program doImmediateExecute blockOnDebugPause Ends
    next =>
      refine .inl ⟨.inr fun runs => runs.1 rfl, ?_⟩
      exact congrArg (fun v => v.executed) same

theorem moves_pushed (ready : s.PushReady) (quiet : s.isAbortReq = false)
    (orderly : s.stage.Orderly) {target : PushTarget} {answers : ScriptSource} {program : Script}
    {doImmediateExecute blockOnDebugPause : Bool}
    (pushed : Pushed s target answers program doImmediateExecute blockOnDebugPause t)
    (Ends : Await → Prop) : Stops s t ∨ Stage.Moves Ends s.stage t.stage := by
  cases pushed with
  | refused reason _ => exact .inl (s.stops_abortStackReq reason)
  | @entered m u _ provided =>
    have same : u.stage = s.stage ∧ u.isAbortReq = s.isAbortReq := by
      cases provided <;> exact ⟨rfl, rfl⟩
    have moved := moves_pushExecModuleEntryPoint (ready.provided provided) (same.2.trans quiet)
      (same.1 ▸ orderly) m answers.hasEntryPoint program doImmediateExecute blockOnDebugPause Ends
    simp only [Stops, same.1] at moved
    exact moved

theorem stage_setProgram (s : Sched) (sp : Nat) (rest : Script) :
    (s.setProgram sp rest).stage = s.stage :=
  s.stage_modifyCtx_of_same sp (f := fun c => { c with program := rest }) fun _ => rfl

theorem moves_runStatement (inv : s.StackInv) {rest : List Nat}
    (running : s.running = s.moduleStackIndex :: rest) (waiting : s.Waiting rest)
    (quiet : s.isAbortReq = false) (orderly : s.stage.Orderly)
    (goes : (s.moduleStack s.moduleStackIndex).asCtx.doSuspend = false) (Ends : Await → Prop) :
    Stops s (s.runStatement s.moduleStackIndex) ∨
      Stage.Moves Ends s.stage (s.runStatement s.moduleStackIndex).stage := by
  have nested := inv.nested
  rw [running] at nested
  have kept (next : Script) : (s.setProgram s.moduleStackIndex next).stage = s.stage :=
    s.stage_setProgram _ next
  unfold runStatement
  cases (s.moduleStack s.moduleStackIndex).asCtx.program with
  | done =>
    refine (stage_finished running).imp_right fun finished => ?_
    simp only [finished]
    exact .finishes running goes
  | throw =>
    refine .inl ⟨.inl rfl, ?_⟩
    have left := congrArg (fun v => v.executed) (stage_leaveExecute running .exception)
    exact ((s.leaveExecute s.moduleStackIndex .exception).stops_abortStackReq _).2.trans left
  | call bind next =>
    have goes' : ((s.setProgram s.moduleStackIndex next).moduleStack s.moduleStackIndex).asCtx.doSuspend =
        false := by
      simpa [setProgram, modifyCtx] using goes
    have moved := @moves_callBind (s.setProgram s.moduleStackIndex next) rest running goes' bind Ends
    simp only [Stops, kept] at moved
    exact moved
  | exec e child next =>
    have waits : (s.setProgram s.moduleStackIndex next).Waiting rest :=
      waiting.modifyCtx (fun c => { c with program := next }) (not_mem_of_nested nested)
    have moved := moves_pushed
      ⟨inv.setProgram s.moduleStackIndex next, .inr ⟨rfl, rest, running, waits⟩⟩ quiet
      ((kept next).symm ▸ orderly) (pushed_pushExec _ e child) Ends
    simp only [Stops, kept] at moved
    exact moved

end Moves

end Sched

end LotusKit.Schedule

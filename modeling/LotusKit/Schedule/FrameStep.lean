import Mathlib.Algebra.BigOperators.Intervals
import Mathlib.Algebra.Order.BigOperators.Group.Finset
import LotusKit.Schedule.Charge
import LotusKit.Schedule.FrameAdvance
import LotusKit.Schedule.Modules

/-! A step of frame advance. The first frame only releases DebugPause; from then on every
frame counts, until the frames that were counted make up for what was asked. -/

namespace LotusKit.Schedule
open LotusKit.Lib.Transition

/-- The statement pushes a script, steps, or requests or releases DebugPause. -/
def Script.disturbs : Script → Bool
  | .exec _ _ _ => true
  | .call (.requestPause hash) _ => hash = DebugPause
  | .call (.releasePause hash) _ => hash = DebugPause
  | .call bind _ => bind.isFrameAdvance
  | _ => false

namespace Sched

/-- The statement that the next tick runs, with what follows it. -/
def nextStatement (s : Sched) : Option Script :=
  match s.control, s.running with
  | .run, sp :: _ => some (s.moduleStack sp).asCtx.program
  | _, _ => none

/-- Playback goes on, and nobody but frame advance has a say in when scripts run. -/
structure Undisturbed (s : Sched) : Prop where
  isPlaybackActive : s.isPlaybackActive = true
  blockOnDebugPause : ∀ i ≤ s.moduleStackIndex, (s.moduleStack i).state.blockOnDebugPause = true
  noAwait : s.getSP.state.isAwaitPauseRequestHash = 0 ∧ s.getSP.state.isAwaitPauseTargetHash = 0
  noLoadingPause : s.isPauseRequest LoadingPause = false
  statement : s.nextStatement.any Script.disturbs = false

instance (s : Sched) : Decidable s.Undisturbed :=
  decidable_of_iff
    (s.isPlaybackActive = true ∧
      (∀ i ≤ s.moduleStackIndex, (s.moduleStack i).state.blockOnDebugPause = true) ∧
      (s.getSP.state.isAwaitPauseRequestHash = 0 ∧ s.getSP.state.isAwaitPauseTargetHash = 0) ∧
      s.isPauseRequest LoadingPause = false ∧ s.nextStatement.any Script.disturbs = false)
    ⟨fun ⟨active, blocks, noAwait, noLoadingPause, statement⟩ =>
      ⟨active, blocks, noAwait, noLoadingPause, statement⟩,
     fun ⟨active, blocks, noAwait, noLoadingPause, statement⟩ =>
      ⟨active, blocks, noAwait, noLoadingPause, statement⟩⟩

/-- Frame advance holds the game, with `step60` to step. -/
structure Armed (s : Sched) (step60 : Nat) : Prop where
  control : s.control = .idle
  isFrameAdvance : s.isFrameAdvance = true
  debugPauses : s.debugPauses = 1
  bypassDebugPause60 : s.bypassDebugPause60 = step60
  positive : 0 < step60

/-- Of a step of `step60` that began at `start60`, `counted60` is over. -/
structure Metered (s : Sched) (step60 start60 counted60 : Nat) : Prop where
  isFrameAdvance : s.isFrameAdvance = true
  debugPauses : s.debugPauses = if counted60 < step60 then 0 else 1
  elapsedPlayback60 : s.elapsedPlayback60 = u32 (start60 + counted60)
  bypassDebugPause60 : s.bypassDebugPause60 = step60 - counted60
  isPlaybackBeginPending : s.isPlaybackBeginPending = false

variable {s t : Sched} {step60 start60 counted60 deltaFrame60 : Nat}

theorem Metered.congr (metered : s.Metered step60 start60 counted60) (same : t.meter = s.meter) :
    t.Metered step60 start60 counted60 := by
  have advance : t.isFrameAdvance = s.isFrameAdvance := congrArg (fun m => m.1.1) same
  have pauses : t.debugPauses = s.debugPauses := congrArg (fun m => m.1.2.1) same
  have elapsed : t.elapsedPlayback60 = s.elapsedPlayback60 := congrArg (fun m => m.1.2.2) same
  have bypass : t.bypassDebugPause60 = s.bypassDebugPause60 := congrArg (fun m => m.2.1) same
  have pending : t.isPlaybackBeginPending = s.isPlaybackBeginPending :=
    congrArg (fun m => m.2.2) same
  exact ⟨advance.trans metered.isFrameAdvance, pauses.trans metered.debugPauses,
    elapsed.trans metered.elapsedPlayback60, bypass.trans metered.bypassDebugPause60,
    pending.trans metered.isPlaybackBeginPending⟩

/-- Only DebugPause holds up an undisturbed script, and only while there is no step. -/
theorem Undisturbed.isBlockedFromScheduling (undisturbed : s.Undisturbed)
    (advancing : s.isFrameAdvance = true) :
    s.isBlockedFromScheduling =
      (!s.isPlaybackBeginPending && s.isPauseRequest DebugPause && s.bypassDebugPause60 == 0, s) := by
  obtain ⟨request, target⟩ := undisturbed.noAwait
  have blocks := undisturbed.blockOnDebugPause s.moduleStackIndex (Nat.le_refl _)
  have cleared : s.clearAwaitOf DebugPause = s := by
    rw [clearAwaitOf, if_neg]
    rw [request]
    exact fun awaits => absurd awaits.1 (by decide)
  have awaits : s.isBlockedByLoadingPause = (false, s) := by
    simp [isBlockedByLoadingPause, undisturbed.noLoadingPause, isBlockedByAwait,
      calcScheduleIsAwaitPauseRequest, calcScheduleIsAwaitPauseTarget, request, target]
  cases pending : s.isPlaybackBeginPending with
  | true => simp [Sched.isBlockedFromScheduling, pending]
  | false =>
    cases paused : s.isPauseRequest DebugPause with
    | false => simp [Sched.isBlockedFromScheduling, pending, paused, awaits]
    | true =>
      by_cases still : s.bypassDebugPause60 = 0
      · simp [Sched.isBlockedFromScheduling, pending, paused, blocks, cleared, still]
      · simp [Sched.isBlockedFromScheduling, pending, paused, blocks, cleared, advancing, awaits, still,
          Nat.pos_of_ne_zero still]

/-- A look at a script that cannot be played ends playback. -/
theorem Undisturbed.valid (stands : s.control = .ctxEnter deltaFrame60)
    (later : s.tick.Undisturbed) : s.isValidForExecution = true := by
  by_contra invalid
  have active := later.isPlaybackActive
  simp only [tick, stands, calcCtxEnter, if_pos (Bool.not_eq_true _ ▸ invalid)] at active
  simp [calcCtxReturn] at active

/-- Nothing after the accounting touches the meter, but a pending script begins. -/
theorem calcCtxEnter_meter (valid : s.isValidForExecution = true)
    (free : s.isBlockedFromScheduling = (false, s)) (deltaFrame60 : Nat) :
    let u := (s.calcConsumeFrametime_queryIsInputExhausted deltaFrame60).2
    (s.calcCtxEnter deltaFrame60).meter = (u.clock, u.bypassDebugPause60, false) := by
  unfold calcCtxEnter
  rw [if_neg (by simp [valid])]
  simp only [free, Bool.false_eq_true, if_false]
  generalize s.calcConsumeFrametime_queryIsInputExhausted deltaFrame60 = answer
  obtain ⟨isInputExhausted, u⟩ := answer
  simp only
  split
  next waits =>
    rw [← waits.2]
    rfl
  next => rfl

theorem Undisturbed.blocksCharged (undisturbed : s.Undisturbed) :
    (s.moduleStack s.chargedSlot).state.blockOnDebugPause = true :=
  undisturbed.blockOnDebugPause s.chargedSlot s.chargedSlot_le

/-- With frames to step, a paused game is let go, and that is all. -/
theorem Undisturbed.releases (undisturbed : s.Undisturbed) (advancing : s.isFrameAdvance = true)
    (paused : s.isPauseRequest DebugPause = true) (stepping : 0 < s.bypassDebugPause60)
    (deltaFrame60 : Nat) :
    (s.calcConsumeFrametime_queryIsInputExhausted deltaFrame60).2 = s.releasePause DebugPause := by
  have some_ : s.bypassDebugPause60 ≠ 0 := Nat.ne_of_gt stepping
  simp [calcConsumeFrametime_queryIsInputExhausted, advancing, calcFrameAdvance, paused, some_,
    undisturbed.blocksCharged]

theorem u32_add_u32 (m n : Nat) : u32 (u32 m + n) = u32 (m + n) := Nat.mod_add_mod m (2 ^ 32) n

/-- While the game runs, the time of a frame counts, and the frame that makes up for the
step requests the pause again. -/
theorem Undisturbed.counts (undisturbed : s.Undisturbed)
    (metered : s.Metered step60 start60 counted60) (stepping : counted60 < step60)
    (deltaFrame60 : Nat) :
    let u := (s.calcConsumeFrametime_queryIsInputExhausted deltaFrame60).2
    u.clock = (true, if counted60 + deltaFrame60 < step60 then 0 else 1,
        u32 (start60 + (counted60 + deltaFrame60))) ∧
      u.bypassDebugPause60 = step60 - (counted60 + deltaFrame60) := by
  have advancing := metered.isFrameAdvance
  have pauses : s.debugPauses = 0 := metered.debugPauses.trans (if_pos stepping)
  have unpaused : s.isPauseRequest DebugPause = false := by
    rw [← Bool.not_eq_true, isPauseRequest_debugPause, pauses]
    decide
  have left : s.bypassDebugPause60 ≠ 0 := by
    rw [metered.bypassDebugPause60]
    omega
  have rest : s.bypassDebugPause60 - min s.bypassDebugPause60 deltaFrame60 =
      step60 - (counted60 + deltaFrame60) := by
    rw [metered.bypassDebugPause60]
    omega
  have elapsed : u32 (s.elapsedPlayback60 + deltaFrame60) =
      u32 (start60 + (counted60 + deltaFrame60)) := by
    rw [metered.elapsedPlayback60, u32_add_u32, Nat.add_assoc]
  have advanced : s.calcFrameAdvance s.chargedSlot deltaFrame60 =
      (if step60 - (counted60 + deltaFrame60) = 0 then
        { s with bypassDebugPause60 := step60 - (counted60 + deltaFrame60) }.requestPause DebugPause
      else { s with bypassDebugPause60 := step60 - (counted60 + deltaFrame60) }, true, false) := by
    simp [calcFrameAdvance, unpaused, left, undisturbed.blocksCharged, rest]
  simp only [calcConsumeFrametime_queryIsInputExhausted, advancing, if_true, advanced]
  by_cases beyond : step60 - (counted60 + deltaFrame60) = 0
  · have reached : ¬counted60 + deltaFrame60 < step60 := by omega
    have again := debugPauses_requestPause
      { s with bypassDebugPause60 := step60 - (counted60 + deltaFrame60) }
    rw [if_pos beyond, if_neg reached]
    refine ⟨?_, rfl⟩
    calc _ = (true, s.debugPauses + 1, u32 (s.elapsedPlayback60 + deltaFrame60)) :=
          congrArg (fun pauses => (true, pauses, u32 (s.elapsedPlayback60 + deltaFrame60))) again
      _ = _ := by rw [pauses, elapsed, Int.zero_add]
  · have short : counted60 + deltaFrame60 < step60 := by omega
    rw [if_neg beyond, if_pos short]
    refine ⟨?_, rfl⟩
    calc _ = (true, s.debugPauses, u32 (s.elapsedPlayback60 + deltaFrame60)) := rfl
      _ = _ := by rw [pauses, elapsed]

/-- A look in the middle of a step. -/
theorem Metered.enters (metered : s.Metered step60 start60 counted60) (undisturbed : s.Undisturbed)
    (later : s.tick.Undisturbed) (stands : s.control = .ctxEnter deltaFrame60)
    (stepping : counted60 < step60) :
    s.tick.Metered step60 start60 (counted60 + deltaFrame60) := by
  have ticked : s.tick = s.calcCtxEnter deltaFrame60 := by simp only [tick, stands]
  have free := undisturbed.isBlockedFromScheduling metered.isFrameAdvance
  have left : (s.bypassDebugPause60 == 0) = false := by
    rw [metered.bypassDebugPause60, beq_eq_false_iff_ne]
    omega
  rw [left, Bool.and_false] at free
  have meter := calcCtxEnter_meter (Undisturbed.valid stands later) free deltaFrame60
  obtain ⟨clock, bypass⟩ := undisturbed.counts metered stepping deltaFrame60
  simp only [clock, bypass, ← ticked] at meter
  exact ⟨congrArg (fun m => m.1.1) meter, congrArg (fun m => m.1.2.1) meter,
    congrArg (fun m => m.1.2.2) meter, congrArg (fun m => m.2.1) meter,
    congrArg (fun m => m.2.2) meter⟩

/-- Once the step is over, a look changes nothing. -/
theorem Metered.rests (metered : s.Metered step60 start60 counted60) (undisturbed : s.Undisturbed)
    (later : s.tick.Undisturbed) (stands : s.control = .ctxEnter deltaFrame60)
    (beyond : step60 ≤ counted60) : s.tick = s.calcCtxReturn false := by
  have blocked := undisturbed.isBlockedFromScheduling metered.isFrameAdvance
  have pauses : s.debugPauses = 1 := metered.debugPauses.trans (if_neg (Nat.not_lt_of_le beyond))
  have paused : s.isPauseRequest DebugPause = true := by
    rw [isPauseRequest_debugPause, pauses]
    decide
  have still : s.bypassDebugPause60 = 0 := by
    rw [metered.bypassDebugPause60]
    omega
  have valid := Undisturbed.valid stands later
  have answer : s.isBlockedFromScheduling = (true, s) := by
    rw [blocked, metered.isPlaybackBeginPending, paused, still]
    rfl
  simp only [tick, stands, calcCtxEnter, valid, answer, Bool.true_eq_false, if_false, if_true]

/-- The first look lets the game go. -/
theorem Undisturbed.arms (undisturbed : s.Undisturbed) (later : s.tick.Undisturbed)
    (stands : s.control = .ctxEnter deltaFrame60) (advancing : s.isFrameAdvance = true)
    (held : s.debugPauses = 1) (bypass : s.bypassDebugPause60 = step60) (positive : 0 < step60)
    (word : s.elapsedPlayback60 < 2 ^ 32) :
    s.accounted deltaFrame60 = s.releasePause DebugPause ∧
      s.tick.Metered step60 s.elapsedPlayback60 0 := by
  have ticked : s.tick = s.calcCtxEnter deltaFrame60 := by simp only [tick, stands]
  have valid := Undisturbed.valid stands later
  have paused : s.isPauseRequest DebugPause = true := by
    rw [isPauseRequest_debugPause, held]
    decide
  have free := undisturbed.isBlockedFromScheduling advancing
  have left : (s.bypassDebugPause60 == 0) = false := by
    rw [bypass, beq_eq_false_iff_ne]
    omega
  rw [left, Bool.and_false] at free
  have released := undisturbed.releases advancing paused (bypass ▸ positive) deltaFrame60
  have meter := calcCtxEnter_meter valid free deltaFrame60
  simp only [released, ← ticked] at meter
  refine ⟨?_, congrArg (fun m => m.1.1) meter |>.trans advancing, ?_, ?_,
    (congrArg (fun m => m.2.1) meter).trans bypass, congrArg (fun m => m.2.2) meter⟩
  · rw [accounted, if_neg (by simp [valid]), free]
    exact released
  · rw [if_pos positive]
    have pauses : s.tick.debugPauses = (s.releasePause DebugPause).debugPauses :=
      congrArg (fun m => m.1.2.1) meter
    rw [pauses, debugPauses_releasePause, held]
    rfl
  · have elapsed : s.tick.elapsedPlayback60 = s.elapsedPlayback60 := congrArg (fun m => m.1.2.2) meter
    rw [elapsed, Nat.add_zero, u32_of_lt word]

/-- A bind that does not disturb the step leaves the meter alone. -/
theorem meter_callBind (active : s.isPlaybackActive = true) {bind : Bind} {next : Script}
    (calm : (Script.call bind next).disturbs = false) : (s.callBind bind).meter = s.meter := by
  cases bind with
  | input duration b l r => exact s.meter_setCurrentInput active duration b l r
  | inputOr duration b l r => exact s.meter_setCurrentInput active duration b l r
  | inputXor duration b l r => exact s.meter_setCurrentInput active duration b l r
  | sleep duration => exact s.meter_setCurrentInput active duration _ _ _
  | beginFrameAdvance => cases calm
  | stepFrameAdvance duration => cases calm
  | endFrameAdvance => cases calm
  | requestPause hash =>
    have different : DebugPause ≠ hash := Ne.symm (of_decide_eq_false calm)
    simp [callBind, meter, clock, debugPauses, Sched.requestPause, different]
  | releasePause hash =>
    have different : DebugPause ≠ hash := Ne.symm (of_decide_eq_false calm)
    simp [callBind, meter, clock, debugPauses, Sched.releasePause, different]
  | _ => rfl

/-- Between two looks nothing touches the meter. -/
theorem Undisturbed.meter_tick (undisturbed : s.Undisturbed)
    (elsewhere : ∀ deltaFrame60, s.control ≠ .ctxEnter deltaFrame60) : s.tick.meter = s.meter := by
  cases stands : s.control with
  | idle => simp only [tick, stands]
  | fault => simp only [tick, stands]
  | crash => simp only [tick, stands]
  | ctxEnter deltaFrame60 => exact absurd stands (elsewhere deltaFrame60)
  | boundary =>
    cases running : s.running with
    | nil => simp only [tick, stands, running]
    | cons sp rest =>
      simp only [tick, stands, running]
      exact s.meter_checkFlags sp
  | run =>
    cases running : s.running with
    | nil => simp only [tick, stands, running]
    | cons sp rest =>
      have ticked : s.tick = s.runStatement sp := by simp only [tick, stands, running]
      have calm := undisturbed.statement
      cases program : (s.moduleStack sp).asCtx.program with
      | done =>
        simp only [ticked, runStatement, program]
        exact s.meter_executeReturn sp .finished
      | throw =>
        simp only [ticked, runStatement, program]
        exact s.meter_executeReturn sp .exception
      | exec e child next =>
        simp [nextStatement, stands, running, program, Script.disturbs] at calm
      | call bind next =>
        simp only [nextStatement, stands, running, program, Option.any_some] at calm
        simp only [ticked, runStatement, program]
        exact @meter_callBind (s.setProgram sp next) undisturbed.isPlaybackActive bind next calm

/-- Within a frame, after its first look, no time is left to count. -/
theorem Metered.tick (metered : s.Metered step60 start60 counted60) (undisturbed : s.Undisturbed)
    (later : s.tick.Undisturbed) (noTime : s.NoTime) :
    s.tick.Metered step60 start60 counted60 := by
  by_cases stands : s.control = .ctxEnter 0
  · rcases Nat.lt_or_ge counted60 step60 with stepping | beyond
    · exact metered.enters undisturbed later stands stepping
    · rw [metered.rests undisturbed later stands beyond]
      exact metered.congr rfl
  · apply metered.congr
    apply undisturbed.meter_tick
    intro deltaFrame60 enters
    rw [noTime deltaFrame60 enters] at enters
    exact stands enters

theorem Metered.iterate (metered : s.Metered step60 start60 counted60) (noTime : s.NoTime)
    (undisturbed : ∀ n, (Sched.tick^[n] s).Undisturbed) (n : Nat) :
    (Sched.tick^[n] s).Metered step60 start60 counted60 := by
  have both (n : Nat) : (Sched.tick^[n] s).Metered step60 start60 counted60 ∧
      (Sched.tick^[n] s).NoTime := by
    induction n with
    | zero => exact ⟨metered, noTime⟩
    | succ n ih =>
      have next := undisturbed (n + 1)
      rw [Function.iterate_succ_apply'] at next ⊢
      exact ⟨ih.1.tick (undisturbed n) next ih.2, noTime_tick _⟩
  exact (both n).1

/-- Execution comes back to the main loop. -/
def Ends (s : Sched) : Prop := ∃ n, (Sched.tick^[n] s).control = .idle

theorem Ends.of_idle (stands : s.control = .idle) : s.Ends := ⟨0, stands⟩

theorem Ends.of_tick (ends : s.tick.Ends) : s.Ends := by
  obtain ⟨n, idle⟩ := ends
  exact ⟨n + 1, idle⟩

theorem undisturbed_tick (undisturbed : ∀ n, (Sched.tick^[n] s).Undisturbed) (n : Nat) :
    (Sched.tick^[n] s.tick).Undisturbed := undisturbed (n + 1)

/-- A bind does not move the script that calls it. -/
theorem callBind_keeps (s : Sched) (bind : Bind) :
    (s.callBind bind).control = s.control ∧ (s.callBind bind).running = s.running ∧
      (s.callBind bind).moduleStackIndex = s.moduleStackIndex ∧
      ∀ i, ((s.callBind bind).moduleStack i).asCtx.program = (s.moduleStack i).asCtx.program := by
  have keeps {u : Sched} (control : u.control = s.control) (running : u.running = s.running)
      (index : u.moduleStackIndex = s.moduleStackIndex)
      (program : ∀ i, (u.moduleStack i).asCtx.program = (s.moduleStack i).asCtx.program)
      (same : SameScripts u (s.callBind bind)) :
      (s.callBind bind).control = s.control ∧ (s.callBind bind).running = s.running ∧
        (s.callBind bind).moduleStackIndex = s.moduleStackIndex ∧
        ∀ i, ((s.callBind bind).moduleStack i).asCtx.program = (s.moduleStack i).asCtx.program := by
    refine ⟨same.control.trans control, same.running.trans running,
      same.moduleStackIndex.trans index, fun i => ?_⟩
    rw [same.asCtx]
    exact program i
  rcases s.callBind_cases bind with ⟨reason, -, aborted⟩ | same | same
  · rw [aborted]
    refine ⟨rfl, rfl, rfl, fun i => ?_⟩
    simp only [abortStackReq]
    split <;> rfl
  · exact keeps rfl rfl rfl (fun _ => rfl) same
  · refine @keeps s.trySuspendCtx rfl rfl rfl (fun i => ?_) same
    by_cases top : i = s.moduleStackIndex <;> simp [trySuspendCtx, modifyCtx, top, ScriptContext.suspend]

/-- A script on top that runs to its end leaves the frame, or the one below is looked at. -/
theorem executeReturn_finished {k : Nat} (running : s.running = [k]) (top : s.moduleStackIndex = k)
    (whole : (s.executeReturn k .finished).control ≠ .crash) :
    (s.executeReturn k .finished).control = .idle ∨
      (k ≠ 0 ∧ (s.executeReturn k .finished).control = .ctxEnter 0 ∧
        (s.executeReturn k .finished).running = [] ∧
        (s.executeReturn k .finished).moduleStackIndex = k - 1) := by
  have left : (s.leaveExecute k .finished).running = [] := by simp [leaveExecute, running]
  have index : (s.leaveExecute k .finished).moduleStackIndex = k := top
  unfold executeReturn calcCtxAfterExecute at whole ⊢
  generalize s.leaveExecute k .finished = u at left index whole
  have popped := tryDiscardLastModuleForPop_running (s := u.modifyCtx k ScriptContext.unprepare)
  have still := tryDiscardLastModuleForPop_index (s := u.modifyCtx k ScriptContext.unprepare)
  simp only at whole ⊢
  generalize (u.modifyCtx k ScriptContext.unprepare).tryDiscardLastModuleForPop = v
    at popped still whole ⊢
  replace popped : v.running = [] := popped.trans left
  replace still : v.moduleStackIndex = k := still.trans index
  have fine : v.control ≠ .crash := fun crashed => whole (by rwa [if_pos crashed])
  rw [if_neg fine]
  split
  next =>
    left
    simp only [calcCtxReturn, popped, if_true]
  next above =>
    right
    refine ⟨still ▸ above, rfl, ?_, ?_⟩
    · show (v.inheritOnPop k).running = []
      unfold inheritOnPop
      split <;> exact popped
    · show (v.inheritOnPop k).moduleStackIndex - 1 = k - 1
      rw [← still]
      unfold inheritOnPop
      split <;> rfl

/-- The script in slot `k` suspends or ends: its calls are finitely many. -/
theorem ends_of_boundary {k : Nat}
    (below : k ≠ 0 → ∀ u : Sched, u.control = .ctxEnter 0 → u.running = [] →
      u.moduleStackIndex = k - 1 → (∀ n, (Sched.tick^[n] u).Undisturbed) → u.Whole → u.Ends)
    (program : Script) : ∀ s : Sched, s.control = .boundary → s.running = [k] →
      s.moduleStackIndex = k → (s.moduleStack k).asCtx.program = program →
      (∀ n, (Sched.tick^[n] s).Undisturbed) → s.Whole → s.Ends := by
  -- at the boundary the script leaves, or runs its next statement
  have goes (s : Sched) (stands : s.control = .boundary) (running : s.running = [k])
      (undisturbed : ∀ n, (Sched.tick^[n] s).Undisturbed) (whole : s.Whole)
      (next : ∀ u : Sched, u.control = .run → u.running = [k] →
        u.moduleStackIndex = s.moduleStackIndex → u.moduleStack = s.moduleStack →
        (∀ n, (Sched.tick^[n] u).Undisturbed) → u.Whole → u.tick.Ends) : s.Ends := by
    have ticked : s.tick = s.checkFlags k := by simp only [tick, stands, running]
    by_cases asked : (s.moduleStack k).asCtx.doSuspend = false
    · have runs : s.tick = { s with control := .run } := by rw [ticked, checkFlags, if_pos asked]
      have later := undisturbed_tick undisturbed
      have wholeNext := whole.tick
      rw [runs] at later wholeNext
      apply Ends.of_tick
      rw [runs]
      exact .of_tick (next _ rfl running rfl rfl later wholeNext)
    · have left (status : EContextState) : (s.leaveExecute k status).running = [] := by
        simp [leaveExecute, running]
      apply Ends.of_tick
      apply Ends.of_idle
      rw [ticked, checkFlags, if_neg asked]
      split
      · simp [executeReturn, calcCtxAfterExecute, calcCtxReturn, left]
      · simp [executeReturn, calcCtxAfterExecute, calcCtxReturn, left]
  induction program with
  | done =>
    intro s stands running top program undisturbed whole
    apply goes s stands running undisturbed whole
    intro u runs running' top' slots later wholeU
    have finished : u.tick = u.executeReturn k .finished := by
      simp only [tick, runs, running', runStatement, slots, program]
    have wholeNext := wholeU.tick
    rw [finished] at wholeNext
    rcases executeReturn_finished running' (top'.trans top) (wholeNext 0) with
      idle | ⟨above, enters, empty, index⟩
    · rw [finished]
      exact .of_idle idle
    · have after := undisturbed_tick later
      rw [finished] at after ⊢
      exact below above _ enters empty index after wholeNext
  | throw =>
    intro s stands running top program undisturbed whole
    apply goes s stands running undisturbed whole
    intro u runs running' _ slots _ _
    have left : (u.leaveExecute k .exception).running = [] := by simp [leaveExecute, running']
    apply Ends.of_idle
    simp only [tick, runs, running', runStatement, slots, program]
    simp [executeReturn, calcCtxAfterExecute, calcCtxReturn, abortStackReq, left]
  | call bind next ih =>
    intro s stands running top program undisturbed whole
    apply goes s stands running undisturbed whole
    intro u runs running' top' slots later wholeU
    have called : u.tick = (u.setProgram k next).callBind bind := by
      simp only [tick, runs, running', runStatement, slots, program]
    obtain ⟨control, runs', index, programs⟩ := (u.setProgram k next).callBind_keeps bind
    have after := undisturbed_tick later
    have wholeNext := wholeU.tick
    rw [called] at after wholeNext ⊢
    apply ih _ control (runs'.trans running') (index.trans (top'.trans top)) _ after wholeNext
    rw [programs]
    simp [setProgram, modifyCtx]
  | exec e child next _ _ =>
    intro s stands running top program undisturbed whole
    apply goes s stands running undisturbed whole
    intro u runs running' _ slots later _
    have calm : u.nextStatement.any Script.disturbs = false := (later 0).statement
    simp [nextStatement, runs, running', slots, program, Script.disturbs] at calm

/-- A look from the main loop returns there, or executes the script on top. -/
theorem calcCtxEnter_alone (empty : s.running = []) (deltaFrame60 : Nat) :
    (s.calcCtxEnter deltaFrame60).control = .idle ∨
      ((s.calcCtxEnter deltaFrame60).control = .boundary ∧
        (s.calcCtxEnter deltaFrame60).running = [s.moduleStackIndex] ∧
        (s.calcCtxEnter deltaFrame60).moduleStackIndex = s.moduleStackIndex) := by
  have returns (u : Sched) (same : SameScripts s u) (isCompleteOrFail : Bool) :
      (u.calcCtxReturn isCompleteOrFail).control = .idle := by
    simp only [calcCtxReturn, same.running, empty, if_true]
  unfold calcCtxEnter
  split
  · left
    simp only [calcCtxReturn, abortStackReq, emit, empty, if_true]
  · have asked := s.sameScripts_isBlockedFromScheduling
    generalize s.isBlockedFromScheduling = answer at asked ⊢
    obtain ⟨isBlocked, u⟩ := answer
    have charged := sameScripts_calcConsumeFrametime u deltaFrame60
    simp only at asked charged ⊢
    generalize u.calcConsumeFrametime_queryIsInputExhausted deltaFrame60 = answer at charged ⊢
    obtain ⟨isInputExhausted, v⟩ := answer
    simp only at charged ⊢
    split
    · exact .inl (returns u asked false)
    · split
      · exact .inl (returns v (asked.trans charged) false)
      · have same := asked.trans charged
        refine .inr ⟨rfl, ?_, same.moduleStackIndex⟩
        show v.moduleStackIndex :: v.running = [s.moduleStackIndex]
        rw [same.moduleStackIndex, same.running, empty]

/-- A frame ends: every script in it suspends, or leaves to the one below. -/
theorem ends_of_ctxEnter (k : Nat) : ∀ s : Sched, (∃ deltaFrame60, s.control = .ctxEnter deltaFrame60) →
    s.running = [] → s.moduleStackIndex = k → (∀ n, (Sched.tick^[n] s).Undisturbed) → s.Whole →
    s.Ends := by
  have executes {k : Nat} (below : k ≠ 0 → ∀ u : Sched, u.control = .ctxEnter 0 → u.running = [] →
        u.moduleStackIndex = k - 1 → (∀ n, (Sched.tick^[n] u).Undisturbed) → u.Whole → u.Ends)
      (s : Sched) (enters : ∃ deltaFrame60, s.control = .ctxEnter deltaFrame60)
      (empty : s.running = []) (top : s.moduleStackIndex = k)
      (undisturbed : ∀ n, (Sched.tick^[n] s).Undisturbed) (whole : s.Whole) : s.Ends := by
    obtain ⟨deltaFrame60, stands⟩ := enters
    have ticked : s.tick = s.calcCtxEnter deltaFrame60 := by simp only [tick, stands]
    have later := undisturbed_tick undisturbed
    have wholeNext := whole.tick
    apply Ends.of_tick
    rw [ticked] at later wholeNext ⊢
    rcases calcCtxEnter_alone empty deltaFrame60 with idle | ⟨boundary, running, index⟩
    · exact .of_idle idle
    · exact ends_of_boundary below _ _ boundary (top ▸ running) (index.trans top) rfl later
        wholeNext
  induction k with
  | zero => exact executes fun positive => absurd rfl positive
  | succ k ih => exact executes fun _ u enters => ih u ⟨0, enters⟩

/-- A frame of the main loop, from its start to the next. -/
def FrameTo (s : Sched) (deltaFrame60 : Nat) (t : Sched) : Prop :=
  Leads Sched.tick (s.playbackCalc deltaFrame60) t ∧ t.control = .idle

/-- Nothing in the frame disturbs the step. -/
def UndisturbedFrame (s : Sched) (deltaFrame60 : Nat) : Prop :=
  ∀ n, (Sched.tick^[n] (s.playbackCalc deltaFrame60)).Undisturbed

theorem reachable_iterate (reached : scheduler.Reachable s) (n : Nat) :
    scheduler.Reachable (Sched.tick^[n] s) := by
  induction n with
  | zero => exact reached
  | succ n ih =>
    rw [Function.iterate_succ_apply']
    by_cases idle : (Sched.tick^[n] s).control = .idle
    · have same : (Sched.tick^[n] s).tick = Sched.tick^[n] s := by simp only [tick, idle]
      rw [same]
      exact ih
    · by_cases fault : (Sched.tick^[n] s).control = .fault
      · have same : (Sched.tick^[n] s).tick = Sched.tick^[n] s := by simp only [tick, fault]
        rw [same]
        exact ih
      · by_cases crash : (Sched.tick^[n] s).control = .crash
        · rw [tick_crash crash]
          exact ih
        · exact ih.step (.tick idle ⟨fault, crash⟩)

theorem FrameTo.reachable (frame : s.FrameTo deltaFrame60 t) (reached : scheduler.Reachable s)
    (stands : s.control = .idle) : scheduler.Reachable t := by
  obtain ⟨⟨n, rfl⟩, -⟩ := frame
  exact reachable_iterate (reached.step (.frame deltaFrame60 stands)) n

/-- A frame in which playback is active looks at the script on top. -/
theorem playbackCalc_of_active (stands : s.control = .idle)
    (active : (s.playbackCalc deltaFrame60).isPlaybackActive = true) :
    s.playbackCalc deltaFrame60 = { s with control := .ctxEnter deltaFrame60 } := by
  have resumed (u : Sched) : (u.playbackResume deltaFrame60).isPlaybackActive = u.isPlaybackActive := by
    rcases u.playbackResume_cases deltaFrame60 with same | same <;> rw [same]
  rw [playbackCalc, resumed] at active
  have quiet : s.isAbortReq = false := by
    by_contra aborting
    obtain ⟨_, _, _, cleared⟩ := abortStackImpl_spec (s := s) (by simpa using aborting)
    rw [cleared] at active
    cases active
  rw [abortStackImpl_of_quiet quiet] at active
  rw [playbackCalc, abortStackImpl_of_quiet quiet]
  exact playbackResume_enters (by simp [stands]) (.inl active) deltaFrame60

theorem UndisturbedFrame.enters (undisturbed : s.UndisturbedFrame deltaFrame60)
    (stands : s.control = .idle) :
    s.playbackCalc deltaFrame60 = { s with control := .ctxEnter deltaFrame60 } :=
  playbackCalc_of_active stands (undisturbed 0).isPlaybackActive

/-- What holds after the first look of a frame holds at its end. -/
theorem FrameTo.after (stands : s.control = .idle) (frame : s.FrameTo deltaFrame60 t)
    (undisturbed : s.UndisturbedFrame deltaFrame60) :
    ∃ n, t = Sched.tick^[n] (s.playbackCalc deltaFrame60).tick := by
  obtain ⟨⟨n, rfl⟩, idle⟩ := frame
  cases n with
  | zero =>
    rw [undisturbed.enters stands] at idle
    cases idle
  | succ n => exact ⟨n, rfl⟩

theorem FrameTo.metered (stands : s.control = .idle) (frame : s.FrameTo deltaFrame60 t)
    (undisturbed : s.UndisturbedFrame deltaFrame60)
    (first : (s.playbackCalc deltaFrame60).tick.Metered step60 start60 counted60) :
    t.Metered step60 start60 counted60 := by
  obtain ⟨n, rfl⟩ := frame.after stands undisturbed
  exact first.iterate (noTime_tick _) (fun n => undisturbed (n + 1)) n

/-- A frame while the game runs. -/
theorem Metered.frame (metered : s.Metered step60 start60 counted60) (stepping : counted60 < step60)
    (stands : s.control = .idle) (frame : s.FrameTo deltaFrame60 t)
    (undisturbed : s.UndisturbedFrame deltaFrame60) :
    t.Metered step60 start60 (counted60 + deltaFrame60) := by
  have enters := undisturbed.enters stands
  apply frame.metered stands undisturbed
  have metered' : (s.playbackCalc deltaFrame60).Metered step60 start60 counted60 := by
    rw [enters]
    exact metered.congr rfl
  exact metered'.enters (undisturbed 0) (undisturbed 1) (by rw [enters]) stepping

/-- A frame once the step is over. -/
theorem Metered.frame_rests (metered : s.Metered step60 start60 counted60)
    (beyond : step60 ≤ counted60) (stands : s.control = .idle) (empty : s.running = [])
    (frame : s.FrameTo deltaFrame60 t) (undisturbed : s.UndisturbedFrame deltaFrame60) : t = s := by
  have enters := undisturbed.enters stands
  have metered' : (s.playbackCalc deltaFrame60).Metered step60 start60 counted60 := by
    rw [enters]
    exact metered.congr rfl
  have rests := metered'.rests (undisturbed 0) (undisturbed 1) (by rw [enters]) beyond
  have still : (s.playbackCalc deltaFrame60).tick = s := by
    rw [rests, enters, calcCtxReturn]
    simp only [if_pos empty, Bool.not_false, Bool.and_true, ← stands]
  obtain ⟨n, rfl⟩ := frame.after stands undisturbed
  rw [still]
  exact Function.iterate_fixed (tick_idle stands) n

/-- The first frame of a step. -/
theorem Armed.frame (armed : s.Armed step60) (word : s.elapsedPlayback60 < 2 ^ 32)
    (frame : s.FrameTo deltaFrame60 t) (undisturbed : s.UndisturbedFrame deltaFrame60) :
    (s.playbackCalc deltaFrame60).accounted deltaFrame60 =
        (s.playbackCalc deltaFrame60).releasePause DebugPause ∧
      t.Metered step60 s.elapsedPlayback60 0 := by
  have enters := undisturbed.enters armed.control
  have first := undisturbed 0
  have later := undisturbed 1
  simp only [Function.iterate_zero_apply, Function.iterate_one] at first later
  have arms (w : Sched) (is : w = { s with control := .ctxEnter deltaFrame60 }) (calm : w.Undisturbed)
      (next : w.tick.Undisturbed) : w.accounted deltaFrame60 = w.releasePause DebugPause ∧
        w.tick.Metered step60 s.elapsedPlayback60 0 := by
    subst is
    exact calm.arms next rfl armed.isFrameAdvance armed.debugPauses armed.bypassDebugPause60
      armed.positive word
  obtain ⟨released, metered⟩ := arms _ enters first later
  exact ⟨released, frame.metered armed.control undisturbed metered⟩

/-- The time of the frames after the first one, up to the `i`-th. -/
def counted (deltas : Nat → Nat) (i : Nat) : Nat := ∑ j ∈ Finset.Ico 1 i, deltas j

theorem counted_succ (deltas : Nat → Nat) {i : Nat} (positive : 1 ≤ i) :
    counted deltas (i + 1) = counted deltas i + deltas i :=
  Finset.sum_Ico_succ_top positive deltas

theorem counted_mono (deltas : Nat → Nat) {i j : Nat} (order : i ≤ j) :
    counted deltas i ≤ counted deltas j :=
  Finset.sum_le_sum_of_subset (Finset.Ico_subset_Ico_right order)

/-- A step of `step60` in so many frames, of which only the ones between the release and
the next request of DebugPause count. -/
structure StepsExactly (states : Nat → Sched) (deltas : Nat → Nat) (frames step60 : Nat) : Prop where
  releases : 0 < frames →
    ((states 0).playbackCalc (deltas 0)).accounted (deltas 0) =
      ((states 0).playbackCalc (deltas 0)).releasePause DebugPause ∧
    (states 1).debugPauses = 0 ∧ (states 1).elapsedPlayback60 = (states 0).elapsedPlayback60
  counts : ∀ i, 1 ≤ i → i < frames → counted deltas i < step60 →
    (states (i + 1)).elapsedPlayback60 =
      u32 ((states 0).elapsedPlayback60 + counted deltas (i + 1)) ∧
    (states (i + 1)).debugPauses = if counted deltas (i + 1) < step60 then 0 else 1
  rests : ∀ i j, 1 ≤ i → counted deltas i < step60 → step60 ≤ counted deltas (i + 1) →
    i + 1 ≤ j → j ≤ frames → states j = states (i + 1)

section Step
variable {states : Nat → Sched} {deltas : Nat → Nat} {frames : Nat}
  (reached : scheduler.Reachable (states 0)) (armed : (states 0).Armed step60)
  (run : ∀ i < frames, (states i).FrameTo (deltas i) (states (i + 1)))
  (undisturbed : ∀ i < frames, (states i).UndisturbedFrame (deltas i))
include reached armed run

theorem between_frames (i : Nat) (within : i ≤ frames) :
    scheduler.Reachable (states i) ∧ (states i).control = .idle := by
  induction i with
  | zero => exact ⟨reached, armed.control⟩
  | succ i ih =>
    obtain ⟨reached', stands⟩ := ih (by omega)
    have frame := run i (by omega)
    exact ⟨frame.reachable reached' stands, frame.2⟩

include undisturbed

/-- Until the step is over every frame but the first one counts. -/
theorem metered_frames (i : Nat) (within : i < frames) (stepping : counted deltas i < step60) :
    (states (i + 1)).Metered step60 (states 0).elapsedPlayback60 (counted deltas (i + 1)) := by
  induction i with
  | zero => exact (armed.frame (elapsed_lt reached) (run 0 within) (undisturbed 0 within)).2
  | succ i ih =>
    have before := counted_mono deltas (Nat.le_add_right i 1)
    have metered := ih (by omega) (by omega)
    have stands := (between_frames reached armed run (i + 1) (by omega)).2
    rw [counted_succ deltas (i := i + 1) (by omega)]
    exact metered.frame stepping stands (run (i + 1) within) (undisturbed (i + 1) within)

/-- Once the step is over nothing happens any more. -/
theorem rests_frames {i : Nat} (stepping : counted deltas i < step60)
    (beyond : step60 ≤ counted deltas (i + 1)) (n : Nat) (within : i + 1 + n ≤ frames) :
    states (i + 1 + n) = states (i + 1) := by
  induction n with
  | zero => rfl
  | succ n ih =>
    have same := ih (by omega)
    have metered := metered_frames reached armed run undisturbed i (by omega) stepping
    obtain ⟨reached', stands⟩ := between_frames reached armed run (i + 1 + n) (by omega)
    obtain ⟨-, empty⟩ := reachable_idle reached' stands
    rw [← same] at metered ⊢
    exact metered.frame_rests beyond stands empty (run (i + 1 + n) (by omega))
      (undisturbed (i + 1 + n) (by omega))

/-- Frames that come to their ends make up exactly the step. -/
theorem stepsExactly : StepsExactly states deltas frames step60 := by
  refine ⟨fun some_ => ?_, fun i positive within stepping => ?_,
    fun i j positive stepping beyond after within => ?_⟩
  · obtain ⟨released, metered⟩ :=
      armed.frame (elapsed_lt reached) (run 0 some_) (undisturbed 0 some_)
    refine ⟨released, metered.debugPauses.trans (if_pos armed.positive), ?_⟩
    rw [metered.elapsedPlayback60, Nat.add_zero, u32_of_lt (elapsed_lt reached)]
  · have metered := metered_frames reached armed run undisturbed i within stepping
    exact ⟨metered.elapsedPlayback60, metered.debugPauses⟩
  · obtain ⟨n, rfl⟩ := Nat.exists_eq_add_of_le after
    exact rests_frames reached armed run undisturbed stepping beyond n within

end Step

/-- A frame comes to its end unless it discards a module a second time. -/
theorem UndisturbedFrame.ends (calm : s.UndisturbedFrame deltaFrame60)
    (reached : scheduler.Reachable s) (stands : s.control = .idle)
    (whole : (s.playbackCalc deltaFrame60).Whole) : ∃ t, s.FrameTo deltaFrame60 t := by
  obtain ⟨-, empty⟩ := reachable_idle reached stands
  have enters := calm.enters stands
  obtain ⟨n, idle⟩ := ends_of_ctxEnter s.moduleStackIndex (s.playbackCalc deltaFrame60)
    ⟨deltaFrame60, by rw [enters]⟩ (by rw [enters]; exact empty) (by rw [enters]) calm whole
  exact ⟨_, ⟨n, rfl⟩, idle⟩

/-- The first frames lead from `s` to `t`. -/
inductive FramesTo (s : Sched) (deltas : Nat → Nat) : Nat → Sched → Prop
  | start : FramesTo s deltas 0 s
  | frame {i : Nat} {t u : Sched} : FramesTo s deltas i t → t.FrameTo (deltas i) u →
      FramesTo s deltas (i + 1) u

theorem FrameTo.unique {u : Sched} (first : s.FrameTo deltaFrame60 t)
    (second : s.FrameTo deltaFrame60 u) : t = u :=
  first.1.unique second.1 (tick_idle first.2) (tick_idle second.2)

theorem FramesTo.reachable {deltas : Nat → Nat} {i : Nat} (framesTo : s.FramesTo deltas i t)
    (reached : scheduler.Reachable s) (stands : s.control = .idle) :
    scheduler.Reachable t ∧ t.control = .idle := by
  induction framesTo with
  | start => exact ⟨reached, stands⟩
  | frame _ frame ih => exact ⟨frame.reachable ih.1 ih.2, frame.2⟩

/-- Every frame of the step comes to its end, and together they make up exactly the step. -/
def StepsThrough (s : Sched) (deltas : Nat → Nat) (frames step60 : Nat) : Prop :=
  ∃ states : Nat → Sched, states 0 = s ∧
    (∀ i < frames, (states i).FrameTo (deltas i) (states (i + 1))) ∧
    StepsExactly states deltas frames step60

/-- A frame-advance step runs exactly the requested time, and each of its frames ends, if and
only if no pop in them discards a module for the second time. -/
theorem stepsThrough_iff {deltas : Nat → Nat} {frames : Nat} (reached : scheduler.Reachable s)
    (armed : s.Armed step60)
    (undisturbed : ∀ i < frames, ∀ t, s.FramesTo deltas i t → t.UndisturbedFrame (deltas i)) :
    s.StepsThrough deltas frames step60 ↔ ∀ i < frames, ∀ t, s.FramesTo deltas i t →
      ∀ n, ¬(Sched.tick^[n] (t.playbackCalc (deltas i))).DiscardsAgain := by
  have inv {i : Nat} {t : Sched} (framesTo : s.FramesTo deltas i t) :
      (t.playbackCalc (deltas i)).Inv := by
    obtain ⟨reached', stands⟩ := framesTo.reachable reached armed.control
    exact inv_reachable (reached'.step (.frame (deltas i) stands))
  constructor
  · rintro ⟨states, rfl, run, -⟩ i within t framesTo
    -- the frames have no choice but to follow the states
    have same : t = states i := by
      induction framesTo with
      | start => rfl
      | @frame i u v _ frame ih =>
        obtain rfl := ih (by omega)
        exact frame.unique (run i (by omega))
    subst same
    have whole := whole_of_leads (run i within).1 (run i within).2
    exact (whole_iff (inv framesTo) (whole 0)).mp whole
  · intro never
    have next (i : Nat) (within : i < frames) (t : Sched) (framesTo : s.FramesTo deltas i t) :
        ∃ u, t.FrameTo (deltas i) u := by
      have calm := undisturbed i within t framesTo
      obtain ⟨reached', stands⟩ := framesTo.reachable reached armed.control
      have begins : (t.playbackCalc (deltas i)).control ≠ .crash := by
        rw [calm.enters stands]
        exact Control.noConfusion
      exact calm.ends reached' stands ((whole_iff (inv framesTo) begins).mpr (never i within t framesTo))
    obtain ⟨follow, follows⟩ : ∃ follow : Nat → Sched → Sched,
        ∀ i t, i < frames → s.FramesTo deltas i t → t.FrameTo (deltas i) (follow i t) := by
      classical
      refine ⟨fun i t => if goes : ∃ u, t.FrameTo (deltas i) u then goes.choose else t, ?_⟩
      intro i t within framesTo
      have goes := next i within t framesTo
      simpa only [dif_pos goes] using goes.choose_spec
    let states (n : Nat) : Sched := n.rec s follow
    have along (i : Nat) (within : i ≤ frames) : s.FramesTo deltas i (states i) := by
      induction i with
      | zero => exact .start
      | succ i ih => exact .frame (ih (by omega)) (follows i _ (by omega) (ih (by omega)))
    have run (i : Nat) (within : i < frames) : (states i).FrameTo (deltas i) (states (i + 1)) :=
      follows i _ within (along i (by omega))
    exact ⟨states, rfl, run, stepsExactly reached armed run fun i within =>
      undisturbed i within _ (along i (by omega))⟩

/-- Once the frame is at its end, or crashed, nothing more happens in it. -/
theorem undisturbedFrame_of_fixed {n : Nat}
    (still : (Sched.tick^[n] (s.playbackCalc deltaFrame60)).tick =
      Sched.tick^[n] (s.playbackCalc deltaFrame60))
    (upTo : ∀ m ≤ n, (Sched.tick^[m] (s.playbackCalc deltaFrame60)).Undisturbed) :
    s.UndisturbedFrame deltaFrame60 := by
  intro m
  rcases Nat.le_total m n with before | after
  · exact upTo m before
  · obtain ⟨k, rfl⟩ := Nat.exists_eq_add_of_le after
    rw [Nat.add_comm, Function.iterate_add_apply, Function.iterate_fixed still]
    exact upTo n (Nat.le_refl n)

theorem undisturbedFrame_of_tick (idle : (s.playbackCalc deltaFrame60).tick.control = .idle)
    (upTo : ∀ m ≤ 1, (Sched.tick^[m] (s.playbackCalc deltaFrame60)).Undisturbed) :
    s.UndisturbedFrame deltaFrame60 :=
  undisturbedFrame_of_fixed (n := 1) (tick_idle idle) upTo

/-- A script that begins to step three frames, and pushes another that presses a button. -/
def stepper : Script :=
  .call (.input 0 0 ⟨0, 0⟩ ⟨0, 0⟩) (.call .beginFrameAdvance (.call (.stepFrameAdvance 3)
    (.exec ⟨.awaitEval 9, ⟨true, false, true, true⟩, false, true⟩
      (.call (.input 1 1 ⟨0, 0⟩ ⟨0, 0⟩) .done) (.call (.input 20 1 ⟨0, 0⟩ ⟨0, 0⟩) .done))))

def beginsStep : List Action :=
  [.push .autorun ⟨true, false, true, true⟩ stepper, .frame 2] ++ List.replicate 10 .tick

/-- The frames after that, of two 60ths each. -/
def stepped (i : Nat) : Sched :=
  (fun s => Sched.tick^[8] (s.playbackCalc 2))^[i] (System.performAll Sched.perform beginsStep .init)

theorem stepper_stepsThrough : (stepped 0).StepsThrough (fun _ => 2) 5 6 := by
  have reached : scheduler.Reachable (stepped 0) := reachable_performAll (by decide +kernel)
  have next (i : Nat) : stepped (i + 1) = Sched.tick^[8] ((stepped i).playbackCalc 2) :=
    Function.iterate_succ_apply' _ i _
  have idle : ∀ i < 5, (stepped (i + 1)).control = .idle := by decide +kernel
  have calm : ∀ i < 5, ∀ m ≤ 8, (Sched.tick^[m] ((stepped i).playbackCalc 2)).Undisturbed := by
    decide +kernel
  have frame (i : Nat) (within : i < 5) : (stepped i).FrameTo 2 (stepped (i + 1)) :=
    ⟨⟨8, (next i).symm⟩, idle i within⟩
  have along (i : Nat) (within : i ≤ 5) (t : Sched)
      (framesTo : (stepped 0).FramesTo (fun _ => 2) i t) : t = stepped i := by
    induction framesTo with
    | start => rfl
    | @frame i u v _ goes ih =>
      obtain rfl := ih (by omega)
      exact goes.unique (frame i (by omega))
  have armed : (stepped 0).Armed 6 :=
    ⟨by decide +kernel, by decide +kernel, by decide +kernel, by decide +kernel, by decide⟩
  refine (stepsThrough_iff reached armed fun i within t framesTo => ?_).mpr
    fun i within t framesTo => ?_
  · rw [along i (by omega) t framesTo]
    have ends := idle i within
    rw [next] at ends
    exact undisturbedFrame_of_fixed (tick_idle ends) (calm i within)
  · rw [along i (by omega) t framesTo]
    have before : scheduler.Reachable (stepped i) ∧ (stepped i).control = .idle :=
      between_frames reached armed frame i (Nat.le_of_lt within)
    have whole := whole_of_leads (frame i within).1 (frame i within).2
    exact (whole_iff (inv_reachable (before.1.step (.frame 2 before.2))) (whole 0)).mp whole

/-- A script that executes a file, which executes itself; the inner run begins to step three
frames and presses a button for the first of them. -/
def selfStepper : Script :=
  .exec ⟨.awaitExecFile "sdcard:/b.as", ⟨true, false, true, true⟩, true, true⟩
    (.exec ⟨.awaitExecFile "sdcard:/b.as", ⟨true, false, true, true⟩, true, true⟩
      (.call (.input 0 0 ⟨0, 0⟩ ⟨0, 0⟩) (.call .beginFrameAdvance (.call (.stepFrameAdvance 3)
        (.call (.input 1 1 ⟨0, 0⟩ ⟨0, 0⟩) .done)))) .done)
    (.call (.input 20 1 ⟨0, 0⟩ ⟨0, 0⟩) .done)

def beginsSelfStep : List Action :=
  [.push .autorun ⟨true, false, true, true⟩ selfStepper, .frame 2] ++ List.replicate 18 .tick

/-- The inner two runs wait in slots 1 and 2 with one module. -/
def selfSteps : Sched := System.performAll Sched.perform beginsSelfStep .init

/-- The frame that releases the pause. -/
def selfStepped : Sched := (selfSteps.playbackCalc 2).tick

/-- Frames that come to no further end than the first. -/
theorem framesTo_of_crash {u : Sched} {n : Nat} (first : s.FrameTo deltaFrame60 u)
    (crashed : (Sched.tick^[n] (u.playbackCalc deltaFrame60)).control = .crash) :
    (∀ i t, s.FramesTo (fun _ => deltaFrame60) i t → t = s ∨ t = u) ∧
      ∀ frames step60, 1 < frames → ¬s.StepsThrough (fun _ => deltaFrame60) frames step60 := by
  have second (t : Sched) : ¬u.FrameTo deltaFrame60 t := fun goes =>
    whole_of_leads goes.1 goes.2 n crashed
  refine ⟨fun i t framesTo => ?_, ?_⟩
  · induction framesTo with
    | start => exact .inl rfl
    | frame _ goes ih =>
      rcases ih with rfl | rfl
      · exact .inr (goes.unique first)
      · exact absurd goes (second _)
  · rintro frames step60 two ⟨states, rfl, run, -⟩
    obtain rfl := (run 0 (by omega)).unique first
    exact second _ (run 1 two)

/-- In the second frame of the step the inner run ends, and its module with it; when the outer
run ends, the module is discarded again. -/
theorem selfStepper_not_stepsThrough :
    scheduler.Reachable selfSteps ∧ selfSteps.Armed 6 ∧
      (∀ i < 5, ∀ t, selfSteps.FramesTo (fun _ => 2) i t → t.UndisturbedFrame 2) ∧
      ¬selfSteps.StepsThrough (fun _ => 2) 5 6 := by
  have idle : selfStepped.control = .idle := by decide +kernel
  have crashed : (Sched.tick^[6] (selfStepped.playbackCalc 2)).control = .crash := by decide +kernel
  have calm : ∀ m ≤ 1, (Sched.tick^[m] (selfSteps.playbackCalc 2)).Undisturbed := by decide +kernel
  have calm' : ∀ m ≤ 6, (Sched.tick^[m] (selfStepped.playbackCalc 2)).Undisturbed := by
    decide +kernel
  obtain ⟨along, stops⟩ := framesTo_of_crash ⟨leads_tick _, idle⟩ crashed
  refine ⟨reachable_performAll (by decide +kernel), ⟨by decide +kernel, by decide +kernel,
    by decide +kernel, by decide +kernel, by decide⟩, fun i _ t framesTo => ?_, stops 5 6 (by decide)⟩
  rcases along i t framesTo with same | same
  · rw [same]
    exact undisturbedFrame_of_tick idle calm
  · rw [same]
    exact undisturbedFrame_of_fixed (tick_crash crashed) calm'

end Sched

end LotusKit.Schedule

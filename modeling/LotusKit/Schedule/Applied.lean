import LotusKit.Lib.RunLength
import LotusKit.Schedule.Flatten

/-! What the game is given, frame by frame, while a script of inputs plays: each input for
as many frames as its duration, as long as every frame takes the time the slot's scaling
assumes. -/

namespace LotusKit.Schedule
open LotusKit.Lib.Transition LotusKit.Lib.RunLength

/-- The arguments of a call of `setCurrentInput`. -/
structure InputCall where
  duration : Nat
  nextButtons : BitVec 64
  nextLStick : AnalogStickState
  nextRStick : AnalogStickState
  deriving DecidableEq, Repr

/-- What a call schedules, and for how many frames. -/
def InputCall.run (call : InputCall) : PlaybackInput × Nat :=
  (scheduledInput call.nextButtons call.nextLStick call.nextRStick, call.duration)

/-- A call that takes time, and not more than the counter can hold. -/
def InputCall.Fits (mode : InputDurationScalingStrategy) (call : InputCall) : Prop :=
  0 < call.duration ∧ call.duration * mode.factor < 2 ^ 32

/-- A script that consists of calls of `tas::input`. -/
def inputScript (calls : List InputCall) : ScriptTree :=
  calls.foldr (fun call rest =>
    .input call.duration call.nextButtons call.nextLStick call.nextRStick rest) .done

namespace Sched
variable {s t u : Sched} {root : Setup} {k : Nat} {rest : List Nat}

/-- Playback gives the game input `x`. -/
structure Shows (s : Sched) (x : PlaybackInput) : Prop where
  isPlaybackActive : s.isPlaybackActive = true
  input : (s.moduleStack 0).state.input = x
  playbackInputPassthroughMode :
    (s.moduleStack 0).state.playbackInputPassthroughMode = .playbackTasOnly

/-- Whatever the controller says. -/
theorem Shows.applyCurrentInput {x : PlaybackInput} (shows_ : s.Shows x)
    (bottom : s.moduleStackIndex = 0) (dst : PlaybackInput) : s.applyCurrentInput dst = some x := by
  simp [Sched.applyCurrentInput, getSP, shows_.isPlaybackActive, bottom, shows_.input,
    shows_.playbackInputPassthroughMode, applyInput]

/-- From `s` on, frames of `deltaFrame60` give the game these inputs, one each, and the
frame after the last one ends playback. -/
inductive Applies (deltaFrame60 : Nat) : Sched → List PlaybackInput → Prop
  | ends {s u : Sched} : Leads tick (s.playbackCalc deltaFrame60) u → u.control = .idle →
      u.isPlaybackActive = false → (u.moduleStack 0).asModule = none → u.isAbortReq = false →
      Applies deltaFrame60 s []
  | frame {s u : Sched} {x : PlaybackInput} {xs : List PlaybackInput} :
      Leads tick (s.playbackCalc deltaFrame60) u → u.control = .idle →
      (∀ dst, u.applyCurrentInput dst = some x) → Applies deltaFrame60 u xs →
      Applies deltaFrame60 s (x :: xs)

/-- A scheduler gives the game one sequence of inputs only. -/
theorem Applies.unique {deltaFrame60 : Nat} {xs ys : List PlaybackInput}
    (first : Applies deltaFrame60 s xs) (second : Applies deltaFrame60 s ys) : xs = ys := by
  induction first generalizing ys with
  | ends leads idle inactive _ _ =>
    cases second with
    | ends _ _ _ _ _ => rfl
    | frame leads' idle' given _ =>
      obtain rfl := leads_idle_unique leads leads' idle idle'
      have some_ := given .zero
      simp [applyCurrentInput, inactive] at some_
  | frame leads idle given _ ih =>
    cases second with
    | ends leads' idle' inactive _ _ =>
      obtain rfl := leads_idle_unique leads leads' idle idle'
      have some_ := given .zero
      simp [applyCurrentInput, inactive] at some_
    | frame leads' idle' given' later =>
      obtain rfl := leads_idle_unique leads leads' idle idle'
      rw [ih later]
      have same := (given .zero).symm.trans (given' .zero)
      rw [Option.some.inj same]

/-- A bind that schedules an input makes playback give it. -/
theorem Executing.input_shows {duration : Nat} {b : BitVec 64} {l r : AnalogStickState}
    {t : ScriptTree} (executing : Executing root s 0 rest (.input duration b l r t)) :
    s.tick.tick.Shows (scheduledInput b l r) := by
  have ran := executing.run
  have called : ({ s with control := .run }).runStatement 0 =
      (({ s with control := .run }).setProgram 0 t.toScript).setCurrentInput duration b l r := by
    simp [runStatement, executing.asCtx, ScriptTree.toScript, callBind]
  have top : (({ s with control := .run }).setProgram 0 t.toScript).moduleStackIndex = 0 :=
    executing.index
  obtain ⟨elapsed, scheduled⟩ :=
    (({ s with control := .run }).setProgram 0 t.toScript).setCurrentInput_spec duration b l r
  rw [ran, called, scheduled, top]
  simp only
  split
  · constructor <;> simp [trySuspendCtx, modifyCtx, modifyState, top]
  · constructor <;> simp [modifyState]

theorem Suspending.shows {t : ScriptTree} {upper : List ScriptTree} {ttl60 : Nat} {x : PlaybackInput}
    (suspending : Suspending root s k rest t upper ttl60) (shows_ : s.Shows x) : s.tick.Shows x := by
  have ticked : s.tick = (s.leaveExecute k .suspended).calcCtxReturn false := by
    simp [tick, suspending.control, suspending.running, checkFlags, suspending.asCtx, executeReturn,
      calcCtxAfterExecute]
  have state : (s.tick.moduleStack 0).state = (s.moduleStack 0).state := by
    rw [ticked]
    by_cases bottom : 0 = k
    · simp [calcCtxReturn, leaveExecute, modifyCtx, bottom]
    · simp [calcCtxReturn, leaveExecute, modifyCtx, bottom]
  refine ⟨?_, by rw [state]; exact shows_.input,
    by rw [state]; exact shows_.playbackInputPassthroughMode⟩
  rw [ticked]
  simpa [calcCtxReturn, leaveExecute] using shows_.isPlaybackActive

theorem Entering.waits_shows {t : ScriptTree} {ttl60 deltaFrame60 : Nat} {x : PlaybackInput}
    (entering : Entering root s 0 rest t ttl60 deltaFrame60)
    (nothing : s.isPlaybackBeginPending = false) (unpaused : s.Unpaused)
    (longer : ttl60 - deltaFrame60 ≠ 0) (shows_ : s.Shows x) : s.tick.Shows x := by
  have answer := isBlockedFromScheduling_plain nothing entering.plain
  rw [entering.index, unpaused.slotBlocked] at answer
  obtain ⟨spent60, u, charged, ticked⟩ := entering.tick_unblocked answer (.inl nothing)
  obtain rfl := charged.unpaused unpaused.1
  rw [if_pos ⟨by simpa using longer, nothing⟩] at ticked
  rw [ticked]
  refine ⟨?_, ?_, ?_⟩
  · simpa [calcCtxReturn] using charged.isPlaybackActive.trans shows_.isPlaybackActive
  · show (u.moduleStack 0).state.input = x
    rw [charged.slot]
    exact shows_.input
  · show (u.moduleStack 0).state.playbackInputPassthroughMode = _
    rw [charged.slot]
    exact shows_.playbackInputPassthroughMode

/-- The end of the root script ends playback. -/
theorem Executing.ends (executing : Executing root s 0 [] .done) (whole : s.Whole) :
    s.tick.tick.isPlaybackActive = false := by
  obtain ⟨w, -, -, after⟩ := executing.finishes whole
  rw [after, if_pos rfl]
  simp [calcCtxReturn]

/-- A frame of the main loop while a script waits in slot 0. -/
theorem Stopped.playbackCalc {t : ScriptTree} {ttl60 : Nat} {x : PlaybackInput}
    (stopped : Stopped root s 0 [] [t] ttl60) (shows_ : s.Shows x) (deltaFrame60 : Nat) :
    s.playbackCalc deltaFrame60 = { s with control := .ctxEnter deltaFrame60 } := by
  rw [Sched.playbackCalc, abortStackImpl_of_quiet stopped.steady.1, playbackResume,
    if_neg (by simp [stopped.control]), if_neg (by simp [shows_.isPlaybackActive])]

theorem Stopped.tidy {t : ScriptTree} {ttl60 : Nat} {x : PlaybackInput}
    (stopped : Stopped root s 0 [] [t] ttl60) (shows_ : s.Shows x) (tidy : s.Tidy)
    (deltaFrame60 : Nat) : (s.playbackCalc deltaFrame60).tick.Tidy := by
  rw [stopped.playbackCalc shows_]
  exact (tidy.frame stopped.control _ s.pauseRequestCount s.targetPaused).tick

theorem Stopped.entering {t : ScriptTree} {ttl60 : Nat} (stopped : Stopped root s 0 [] [t] ttl60)
    (deltaFrame60 : Nat) :
    Entering root { s with control := .ctxEnter deltaFrame60 } 0 [] t ttl60 deltaFrame60 := by
  have bottom : s.moduleStackIndex = 0 := by
    have index := stopped.index
    simp only [List.length_singleton, Nat.zero_add] at index
    omega
  exact ⟨rfl, stopped.running, bottom, by decide, List.pairwise_singleton _ _, stopped.steady.1,
    stopped.stacked.1, fun i beyond => stopped.above i (bottom ▸ beyond)⟩

/-- Nothing holds playback up. -/
structure Free (s : Sched) : Prop where
  isFrameAdvance : s.isFrameAdvance = false
  unpaused : s.Unpaused

theorem Kept.free {events : List Event} (kept : Kept s t k events) (free : s.Free) : t.Free :=
  ⟨kept.pauses.isFrameAdvance.trans free.isFrameAdvance,
    kept.pauses.unpaused free.isFrameAdvance free.unpaused⟩

/-- One frame while a script waits in slot 0. -/
theorem Stopped.frame {t : ScriptTree} {ttl60 : Nat} {x : PlaybackInput}
    (stopped : Stopped root s 0 [] [t] ttl60) (shows_ : s.Shows x) (free : s.Free)
    (deltaFrame60 : Nat) :
    if ttl60 - deltaFrame60 ≠ 0 then
      Stopped root (s.playbackCalc deltaFrame60).tick 0 [] [t] (ttl60 - deltaFrame60) ∧
        (s.playbackCalc deltaFrame60).tick.Shows x ∧ (s.playbackCalc deltaFrame60).tick.Free
    else Executing root (s.playbackCalc deltaFrame60).tick 0 [] t ∧
      (s.playbackCalc deltaFrame60).tick.Free := by
  have entering := stopped.entering deltaFrame60
  rw [stopped.playbackCalc shows_]
  have still : ({ s with control := .ctxEnter deltaFrame60 } : Sched).Free :=
    ⟨free.isFrameAdvance, free.unpaused⟩
  obtain ⟨spent60, -, whole, goes⟩ :=
    entering.unblocked stopped.steady.2 (still.unpaused.slotBlocked root 0)
  obtain rfl := whole still.unpaused.1
  by_cases longer : ttl60 - spent60 ≠ 0
  · rw [if_pos longer] at goes ⊢
    have shown := entering.waits_shows stopped.steady.2 still.unpaused longer
      ⟨shows_.isPlaybackActive, shows_.input, shows_.playbackInputPassthroughMode⟩
    exact ⟨goes.1, shown, goes.2.free still⟩
  · rw [if_neg longer] at goes ⊢
    exact ⟨goes.1, goes.2.free still⟩

/-- An input that is held for `m` more frames, and then what its script does next. -/
theorem applies_waiting {script : ScriptTree} {xs : List PlaybackInput} {x : PlaybackInput}
    (onward : ∀ v w, Leads tick (v.playbackCalc root.inputFPSMode.factor) w →
      Executing root w 0 [] script → w.Free → w.Tidy → Applies root.inputFPSMode.factor v xs) (m : Nat)
    (stopped : Stopped root s 0 [] [script] ((m + 1) * root.inputFPSMode.factor)) (shows_ : s.Shows x)
    (free : s.Free) (tidy : s.Tidy) :
    Applies root.inputFPSMode.factor s (List.replicate m x ++ xs) := by
  have next := stopped.frame shows_ free root.inputFPSMode.factor
  have positive := root.inputFPSMode.factor_pos
  induction m generalizing s with
  | zero =>
    rw [if_neg (by omega)] at next
    exact onward s _ (leads_tick _) next.1 next.2 (stopped.tidy shows_ tidy _)
  | succ m ih =>
    have left : (m + 1 + 1) * root.inputFPSMode.factor - root.inputFPSMode.factor =
        (m + 1) * root.inputFPSMode.factor := by
      rw [Nat.succ_mul, Nat.add_sub_cancel]
    rw [left, if_pos (Nat.mul_ne_zero (Nat.succ_ne_zero m) (Nat.ne_of_gt positive))] at next
    obtain ⟨waits, shown, calm⟩ := next
    have bottom : (s.playbackCalc root.inputFPSMode.factor).tick.moduleStackIndex = 0 := by
      have index := waits.index
      simp only [List.length_singleton, Nat.zero_add] at index
      omega
    exact .frame (leads_tick _) waits.control (shown.applyCurrentInput bottom)
      (ih waits shown calm (stopped.tidy shows_ tidy _) (waits.frame shown calm _))

/-- A script of inputs, from where it is executed in a frame. -/
theorem applies_executing (calls : List InputCall)
    (fit : ∀ call ∈ calls, InputCall.Fits root.inputFPSMode call) (s u : Sched)
    (leads : Leads tick (s.playbackCalc root.inputFPSMode.factor) u)
    (executing : Executing root u 0 [] (inputScript calls)) (free : u.Free) (tidy : u.Tidy) :
    Applies root.inputFPSMode.factor s (expand (calls.map InputCall.run)) := by
  induction calls generalizing s u with
  | nil =>
    have whole := tidy.whole_run
    obtain ⟨popped, goes⟩ := executing.pops whole
    exact .ends (leads.trans u.leads_two_ticks) goes (executing.ends whole) popped.vacant.1
      popped.steady.1
  | cons call calls ih =>
    obtain ⟨positive, small⟩ := fit call List.mem_cons_self
    have time : slotTime60 root 0 call.duration = call.duration * root.inputFPSMode.factor :=
      u32_of_lt small
    obtain ⟨kept, next⟩ := executing.input
    have shown := executing.input_shows
    rw [time, if_pos (Nat.mul_pos positive root.inputFPSMode.factor_pos)] at next
    obtain ⟨stopped, keptStop⟩ := next.stops
    have calm := keptStop.free (kept.free free)
    have shownStop := next.shows shown
    obtain ⟨m, duration⟩ : ∃ m, call.duration = m + 1 := ⟨call.duration - 1, by omega⟩
    rw [duration] at stopped
    have later := applies_waiting (ih fun call member => fit call (List.mem_cons_of_mem _ member)) m
      stopped shownStop calm tidy.tick.tick.tick
    have bottom : u.tick.tick.tick.moduleStackIndex = 0 := by
      have index := stopped.index
      simp only [List.nil_append, List.length_singleton, Nat.zero_add] at index
      omega
    have first : expand ((call :: calls).map InputCall.run) =
        call.run.1 :: (List.replicate m call.run.1 ++ expand (calls.map InputCall.run)) := by
      rw [List.map_cons, expand_cons]
      show List.replicate call.duration _ ++ _ = _
      rw [duration, List.replicate_succ, List.cons_append]
    rw [first]
    exact .frame (leads.trans (u.leads_two_ticks.trans (leads_tick _))) stopped.control
      (shownStop.applyCurrentInput bottom) later

/-- `s` with slot 0 scaling as in a recording; `resetState` leaves it at 30 fps. -/
def withInputFPSMode (mode : InputDurationScalingStrategy) (s : Sched) : Sched :=
  s.modifyState 0 fun state => { state with inputFPSMode := mode }

theorem inputScript_callsOthers (calls : List InputCall) (below : List String) (own : String) :
    (inputScript calls).toScript.CallsOthers below own := by
  induction calls with
  | nil => trivial
  | cons call calls ih => exact ih

theorem inputScript_depth (calls : List InputCall) : (inputScript calls).depth = 0 := by
  induction calls with
  | nil => rfl
  | cons call calls ih => exact ih

/-- Whoever pushes a script of inputs onto an empty stack, the game is given each input for
its duration. -/
theorem applies_pushed (calls : List InputCall) (mode : InputDurationScalingStrategy)
    (fit : ∀ call ∈ calls, InputCall.Fits mode call) (idle : s.Idle) (free : s.Free)
    (source : PushSource) :
    Applies mode.factor
      ((s.pushFrom source .good (inputScript calls).toScript).withInputFPSMode mode)
      (expand (calls.map InputCall.run)) := by
  have room : (inputScript calls).depth < MAX_MODULE_STACK_DEPTH := by
    rw [inputScript_depth]
    decide
  obtain ⟨between, -, keeps⟩ := idle.between room source
  have tidy := idle.tidy source .good (inputScript_callsOthers calls [] source.target.name)
  generalize s.pushFrom source .good (inputScript calls).toScript = w at between keeps tidy ⊢
  have bottom : w.moduleStackIndex = 0 := by
    have index := between.index
    simp only [List.length_singleton] at index
    omega
  let root : Setup := ⟨source.blockOnDebugPause, mode⟩
  let v : Sched := { w.withInputFPSMode mode with control := .ctxEnter mode.factor }
  have called : (w.withInputFPSMode mode).playbackCalc mode.factor = v := by
    rw [playbackCalc, abortStackImpl_of_quiet (show (w.withInputFPSMode mode).isAbortReq = false from
      between.isAbortReq), playbackResume, if_neg, if_neg]
    · simp [withInputFPSMode, between.isPlaybackBeginPending]
    · simp [withInputFPSMode, between.control]
  have entering : Entering root v 0 [] (inputScript calls) 0 mode.factor := by
    refine ⟨rfl, between.running, bottom, by decide, List.pairwise_singleton _ _, between.isAbortReq,
      ?_, fun i beyond inside => ?_⟩
    · obtain ⟨asModule, status, doSuspend, doAbort, program, ttl, request, target, debug, loading,
        -⟩ := between.stacked.1
      have slot : v.moduleStack 0 = { w.moduleStack 0 with state :=
          { (w.moduleStack 0).state with inputFPSMode := mode } } := by
        simp [v, withInputFPSMode, modifyState]
      rw [slot]
      exact ⟨asModule, status, doSuspend, doAbort, program, ttl, request, target, debug, loading, rfl⟩
    · have different : i ≠ 0 := Nat.ne_of_gt beyond
      have vacant := between.above i (bottom ▸ beyond) inside
      simpa [v, withInputFPSMode, modifyState, different] using vacant
  obtain ⟨executing, kept⟩ := entering.pending between.isPlaybackBeginPending
  have calm : v.Free := ⟨keeps.isFrameAdvance.trans free.isFrameAdvance,
    keeps.unpaused free.isFrameAdvance free.unpaused⟩
  have scaled : (w.withInputFPSMode mode).Tidy :=
    tidy.congr (w.sameScripts_modifyState 0 (fun _ => by decide) _)
  have entered : v.Tidy := scaled.frame between.control _ w.pauseRequestCount w.targetPaused
  have leads := leads_tick v
  rw [← called] at leads executing kept entered
  exact @applies_executing root calls fit _ _ leads executing (kept.free (called ▸ calm)) entered.tick

end Sched

end LotusKit.Schedule

import LotusKit.Schedule.Names
import LotusKit.Schedule.ScriptTree

/-! The scheduler plays one `Execute` of a script tree as the stack machine of
`ScriptTree.burst` says: the states in which a script waits or is executed, what single
ticks do to them, and the simulation by induction on the tree. -/

namespace LotusKit.Schedule
open LotusKit.Lib.Transition

namespace Sched
variable {s t u : Sched} {root : Setup} {k : Nat} {rest : List Nat}

/-- What a slot is set up with. -/
structure Setup where
  blockOnDebugPause : Bool
  inputFPSMode : InputDurationScalingStrategy

/-- `resetState` and the nested push decide for every script but the root. -/
def setup (root : Setup) (i : Nat) : Setup := if i = 0 then root else ⟨true, .fps30_2X⟩

/-- Whether the pauses in force keep slot `i` from being executed. -/
def slotBlocked (root : Setup) (s : Sched) (i : Nat) : Bool :=
  (s.isPauseRequest DebugPause && (setup root i).blockOnDebugPause &&
      !(s.isFrameAdvance && 0 < s.bypassDebugPause60)) ||
    s.isPauseRequest LoadingPause

/-- No pause is in force. -/
def Unpaused (s : Sched) : Prop :=
  s.isPauseRequest DebugPause = false ∧ s.isPauseRequest LoadingPause = false

theorem Unpaused.slotBlocked (unpaused : s.Unpaused) (root : Setup) (i : Nat) :
    s.slotBlocked root i = false := by
  simp [Sched.slotBlocked, unpaused.1, unpaused.2]

/-- A schedule state without awaits, as `resetState` and the push leave it. -/
structure Plain (state : ModuleStackFrameScheduleState) (setup : Setup) : Prop where
  isAwaitPauseRequestHash : state.isAwaitPauseRequestHash = 0
  isAwaitPauseTargetHash : state.isAwaitPauseTargetHash = 0
  blockOnDebugPause : state.blockOnDebugPause = setup.blockOnDebugPause
  blockOnLoadingPause : state.blockOnLoadingPause = true
  inputFPSMode : state.inputFPSMode = setup.inputFPSMode

/-- The slot of a script that waits, with tree `t` to go and `ttl60` left of its input. -/
structure Resting (frame : ModuleStackFrame) (t : ScriptTree) (ttl60 : Nat) (setup : Setup) :
    Prop where
  asModule : frame.asModule ≠ none
  status : frame.asCtx.status = .suspended ∨ frame.asCtx.status = .prepared
  doSuspend : frame.asCtx.doSuspend = false
  doAbort : frame.asCtx.doAbort = false
  program : frame.asCtx.program = t.toScript
  inputTTL60 : frame.state.inputTTL60 = ttl60
  plain : Plain frame.state setup

/-- The slots from `k` up hold the waiting scripts `stack`, the top first. Only the top has
time left. -/
def Stacked (root : Setup) (s : Sched) (k : Nat) : List ScriptTree → Nat → Prop
  | [], _ => True
  | t :: below, ttl60 =>
    Resting (s.moduleStack (k + below.length)) t ttl60 (setup root (k + below.length)) ∧
      s.Stacked root k below 0

/-- What no script of a tree changes. -/
structure Steady (s : Sched) : Prop where
  isAbortReq : s.isAbortReq = false
  isPlaybackBeginPending : s.isPlaybackBeginPending = false

/-- Slot `k` is being executed, between two statements, with tree `t` to go. -/
structure Executing (root : Setup) (s : Sched) (k : Nat) (rest : List Nat) (t : ScriptTree) :
    Prop where
  steady : s.Steady
  control : s.control = .boundary
  running : s.running = k :: rest
  index : s.moduleStackIndex = k
  inside : k < MAX_MODULE_STACK_DEPTH
  nested : (k :: rest).Pairwise (· > ·)
  asModule : (s.moduleStack k).asModule ≠ none
  asCtx : (s.moduleStack k).asCtx = ⟨.active, false, false, t.toScript⟩
  inputTTL60 : (s.moduleStack k).state.inputTTL60 = 0
  plain : Plain (s.moduleStack k).state (setup root k)
  above : ∀ i, k < i → i < MAX_MODULE_STACK_DEPTH → Vacant (s.moduleStack i)

/-- From `s` to `t` the pauses stay, unless frame advance holds them. -/
structure KeepsPauses (s t : Sched) : Prop where
  isFrameAdvance : t.isFrameAdvance = s.isFrameAdvance
  pauseRequestCount : s.isFrameAdvance = false → t.pauseRequestCount = s.pauseRequestCount

theorem KeepsPauses.refl (s : Sched) : KeepsPauses s s := ⟨rfl, fun _ => rfl⟩

theorem KeepsPauses.of_eq (advance : t.isFrameAdvance = s.isFrameAdvance)
    (counts : t.pauseRequestCount = s.pauseRequestCount) : KeepsPauses s t :=
  ⟨advance, fun _ => counts⟩

theorem KeepsPauses.trans (one : KeepsPauses s t) (two : KeepsPauses t u) : KeepsPauses s u :=
  ⟨two.isFrameAdvance.trans one.isFrameAdvance, fun calm =>
    (two.pauseRequestCount (one.isFrameAdvance.trans calm)).trans (one.pauseRequestCount calm)⟩

theorem KeepsPauses.unpaused (keeps : KeepsPauses s t) (calm : s.isFrameAdvance = false)
    (unpaused : s.Unpaused) : t.Unpaused := by
  unfold Unpaused isPauseRequest at *
  rwa [keeps.pauseRequestCount calm]

/-- From `s` to `t` the slots below `k` and the pauses stay, and `events` are seen. -/
structure Kept (s t : Sched) (k : Nat) (events : List Event) : Prop where
  below : ∀ i < k, t.moduleStack i = s.moduleStack i
  pauses : KeepsPauses s t
  events : t.events = s.events ++ events

theorem Kept.trans {first second : List Event} (one : Kept s t k first) (two : Kept t u k second) :
    Kept s u k (first ++ second) :=
  ⟨fun i less => (two.below i less).trans (one.below i less), one.pauses.trans two.pauses,
    by rw [two.events, one.events, List.append_assoc]⟩

/-- The scripts from slot `k` up wait, and control is back at the caller of slot `k`. -/
structure Stopped (root : Setup) (s : Sched) (k : Nat) (rest : List Nat) (stack : List ScriptTree)
    (ttl60 : Nat) : Prop where
  steady : s.Steady
  control : s.control = if rest = [] then .idle else .boundary
  running : s.running = rest
  index : s.moduleStackIndex + 1 = k + stack.length
  stacked : s.Stacked root k stack ttl60
  above : ∀ i, s.moduleStackIndex < i → i < MAX_MODULE_STACK_DEPTH → Vacant (s.moduleStack i)

/-- The current call of `calcCtx` ends with an abort request. -/
def Aborts (s : Sched) : Prop :=
  ∃ t, Leads tick s t ∧ t.control = .idle ∧ t.isAbortReq = true

theorem Aborts.of_leads (leads : Leads tick s t) (aborts : t.Aborts) : s.Aborts := by
  obtain ⟨u, later, idle, aborting⟩ := aborts
  exact ⟨u, leads.trans later, idle, aborting⟩

/-- After an abort request the scripts being executed return one after the other. -/
theorem unwind (running : List Nat) (s : Sched) (holds : s.running = running)
    (stands : s.control = if running = [] then .idle else .boundary)
    (aborting : s.isAbortReq = true) (nodup : running.Nodup)
    (flags : ∀ i ∈ running, (s.moduleStack i).asCtx.doSuspend = true ∧
      (s.moduleStack i).asCtx.doAbort = true) : s.Aborts := by
  induction running generalizing s with
  | nil => exact ⟨s, .refl s, stands, aborting⟩
  | cons sp rest ih =>
    have top := flags sp List.mem_cons_self
    have ticked : s.tick = (s.leaveExecute sp .aborted).calcCtxReturn true := by
      simp [tick, stands, holds, checkFlags, top, executeReturn, calcCtxAfterExecute]
    refine .of_leads (.head (.refl _)) (ih s.tick ?_ ?_ ?_ (List.nodup_cons.mp nodup).2 ?_)
    · simp [ticked, calcCtxReturn, leaveExecute, holds]
    · simp [ticked, calcCtxReturn, leaveExecute, holds]
    · rw [ticked]
      exact aborting
    · intro i member
      have different : i ≠ sp := fun same => (List.nodup_cons.mp nodup).1 (same ▸ member)
      simpa [ticked, calcCtxReturn, leaveExecute, modifyCtx, different] using
        flags i (List.mem_cons_of_mem _ member)

/-- An abort request stops whatever is being executed. -/
theorem aborts_of_abortStackReq (stands : s.control = if s.running = [] then .idle else .boundary)
    (nested : s.running.Pairwise (· > ·)) (within : ∀ i ∈ s.running, i < MAX_MODULE_STACK_DEPTH)
    (reason : String) : (s.abortStackReq reason).Aborts := by
  refine unwind s.running _ rfl stands rfl (nested.imp fun less => Nat.ne_of_gt less) fun i member => ?_
  simp [abortStackReq, within i member, ScriptContext.abort]

/-- Back to a waiting parent the top must not be executed again: `calcCtx` aborts. -/
theorem aborts_of_invalid {deltaFrame60 : Nat} (stands : s.control = .ctxEnter deltaFrame60)
    (invalid : s.isValidForExecution = false) (nested : s.running.Pairwise (· > ·))
    (within : ∀ i ∈ s.running, i < MAX_MODULE_STACK_DEPTH) : s.Aborts := by
  set v : Sched := { s with
    isPlaybackActive := false
    control := if s.running = [] then .idle else .boundary } with hv
  have ticked : s.tick = v.abortStackReq "[tas::schedule::calcCtx] no playable ctx" := by
    simp [tick, stands, calcCtxEnter, invalid, calcCtxReturn, abortStackReq, emit, hv]
  refine .of_leads (.head (.refl _)) ?_
  rw [ticked]
  exact aborts_of_abortStackReq (s := v) rfl nested within _

/-- On a slot without awaits only the pauses block. -/
theorem isBlockedFromScheduling_plain (nothing : s.isPlaybackBeginPending = false)
    (plain : Plain s.getSP.state (setup root s.moduleStackIndex)) :
    s.isBlockedFromScheduling = (s.slotBlocked root s.moduleStackIndex, s) := by
  obtain ⟨request, target, debug, loading, -⟩ := plain
  have awaits (hash : Nat) (named : hash ≠ 0) : s.clearAwaitOf hash = s := by
    rw [clearAwaitOf, if_neg (by rw [request]; exact fun is => named is.1.symm)]
  have free : s.isBlockedByAwait = (false, s) := by
    simp only [isBlockedByAwait, calcScheduleIsAwaitPauseRequest, request, if_true,
      Bool.false_eq_true, if_false, calcScheduleIsAwaitPauseTarget, target]
  have load : s.isBlockedByLoadingPause = (s.isPauseRequest LoadingPause, s) := by
    by_cases paused : s.isPauseRequest LoadingPause = true
    · simp [isBlockedByLoadingPause, loading, paused, awaits LoadingPause (by decide)]
    · simp [isBlockedByLoadingPause, paused, free]
  by_cases paused : s.isPauseRequest DebugPause = true ∧
      (setup root s.moduleStackIndex).blockOnDebugPause = true
  · by_cases stepping : s.isFrameAdvance = true ∧ 0 < s.bypassDebugPause60
    · simp [isBlockedFromScheduling, slotBlocked, nothing, paused, debug, awaits DebugPause (by decide),
        stepping, load]
    · have holds : (s.isFrameAdvance && decide (0 < s.bypassDebugPause60)) = false := by
        simpa using stepping
      simp [isBlockedFromScheduling, slotBlocked, nothing, paused, debug, awaits DebugPause (by decide),
        stepping, holds]
  · have open_ : (s.isPauseRequest DebugPause &&
        (setup root s.moduleStackIndex).blockOnDebugPause) = false := by
      simpa using paused
    simp [isBlockedFromScheduling, slotBlocked, nothing, debug, paused, open_, load]

/-- The time of a frame was taken off slot `k`, or none of it while frame advance holds. -/
structure Charged (s u : Sched) (k deltaFrame60 spent60 : Nat) : Prop where
  same : SameScripts s u
  slot : u.moduleStack k = { s.moduleStack k with state :=
    { (s.moduleStack k).state with
      inputTTL60 := (s.moduleStack k).state.inputTTL60 - spent60 } }
  others : ∀ i, i ≠ k → u.moduleStack i = s.moduleStack i
  pauses : KeepsPauses s u
  events : u.events = s.events
  isPlaybackActive : u.isPlaybackActive = s.isPlaybackActive
  unpaused : s.isPauseRequest DebugPause = false → spent60 = deltaFrame60
  atMost : spent60 ≤ deltaFrame60

theorem charged_deductFrametime (inside : k < MAX_MODULE_STACK_DEPTH) (deltaFrame60 : Nat)
    (isPauseAwareInputFrame : Bool) :
    Charged s (s.deductFrametime k deltaFrame60 isPauseAwareInputFrame) k deltaFrame60
      deltaFrame60 := by
  refine ⟨s.sameScripts_deductFrametime (fun _ => inside) _ _, ?_, fun i different => ?_, ?_, ?_, ?_,
    fun _ => rfl, Nat.le_refl _⟩
  · cases isPauseAwareInputFrame <;> simp [deductFrametime, modifyState]
  · cases isPauseAwareInputFrame <;> simp [deductFrametime, modifyState, different]
  · cases isPauseAwareInputFrame <;> exact .of_eq rfl rfl
  · cases isPauseAwareInputFrame <;> rfl
  · cases isPauseAwareInputFrame <;> rfl

theorem calcFrameAdvance_spec (s : Sched) (k deltaFrame60 : Nat) :
    (s.calcFrameAdvance k deltaFrame60).1.moduleStack = s.moduleStack ∧
      (s.calcFrameAdvance k deltaFrame60).1.isFrameAdvance = s.isFrameAdvance ∧
      (s.calcFrameAdvance k deltaFrame60).1.events = s.events ∧
      (s.calcFrameAdvance k deltaFrame60).1.isPlaybackActive = s.isPlaybackActive ∧
      (s.isPauseRequest DebugPause = false → (s.calcFrameAdvance k deltaFrame60).2.1 = true) := by
  simp only [calcFrameAdvance]
  split
  · exact ⟨rfl, rfl, rfl, rfl, fun _ => rfl⟩
  · split
    · next held => exact ⟨rfl, rfl, rfl, rfl, fun unpaused => absurd held.1 (by simp [unpaused])⟩
    · split
      · exact ⟨rfl, rfl, rfl, rfl, fun _ => rfl⟩
      · split
        · next held => exact ⟨rfl, rfl, rfl, rfl, fun unpaused => absurd held (by simp [unpaused])⟩
        · refine ⟨?_, ?_, ?_, ?_, fun _ => rfl⟩ <;> split <;> rfl

/-- What a frame takes off the top. -/
theorem calcConsumeFrametime_plain (inside : s.moduleStackIndex < MAX_MODULE_STACK_DEPTH)
    (top : s.isPlaybackBeginPending = false ∨ s.moduleStackIndex = 0) (deltaFrame60 : Nat) :
    ∃ spent60 u, Charged s u s.moduleStackIndex deltaFrame60 spent60 ∧
      s.calcConsumeFrametime_queryIsInputExhausted deltaFrame60 =
        (s.getSP.state.inputTTL60 - spent60 == 0, u) := by
  have onTop : s.chargedSlot = s.moduleStackIndex := by
    rcases top with nothing | bottom
    · simp [chargedSlot, nothing]
    · simp [chargedSlot, bottom]
  simp only [calcConsumeFrametime_queryIsInputExhausted, onTop]
  by_cases advancing : s.isFrameAdvance = true
  · have advanced := s.sameScripts_calcFrameAdvance s.moduleStackIndex deltaFrame60
    obtain ⟨slots, advance, events, active, playback⟩ :=
      s.calcFrameAdvance_spec s.moduleStackIndex deltaFrame60
    simp only [if_pos advancing]
    generalize s.calcFrameAdvance s.moduleStackIndex deltaFrame60 = answer at *
    obtain ⟨v, isPlaybackFrame, isPauseAwareInputFrame⟩ := answer
    simp only at advanced slots advance events active playback ⊢
    have held : KeepsPauses s v := ⟨advance, fun calm => absurd calm (by simp [advancing])⟩
    by_cases plays : isPlaybackFrame = true
    · rw [if_pos plays]
      have charged := charged_deductFrametime (s := v) inside deltaFrame60 isPauseAwareInputFrame
      refine ⟨deltaFrame60, _, ⟨advanced.trans charged.same, ?_, fun i different => ?_,
        held.trans charged.pauses, charged.events.trans events, charged.isPlaybackActive.trans active,
        fun _ => rfl, Nat.le_refl _⟩, ?_⟩
      · rw [charged.slot, slots]
      · rw [charged.others i different, slots]
      · rw [charged.slot, slots]
    · rw [if_neg plays]
      refine ⟨0, v, ⟨advanced, by rw [slots]; rfl, fun i _ => by rw [slots], held, events,
        active, fun unpaused => absurd (playback unpaused) plays, Nat.zero_le _⟩, ?_⟩
      rw [slots]
      rfl
  · simp only [if_neg advancing, if_true]
    have charged := charged_deductFrametime (s := s) inside deltaFrame60 false
    exact ⟨deltaFrame60, _, charged, by rw [charged.slot]⟩

/-- `calcCtx` looks at a waiting script, with some time to charge. -/
structure Entering (root : Setup) (s : Sched) (k : Nat) (rest : List Nat) (t : ScriptTree)
    (ttl60 deltaFrame60 : Nat) : Prop where
  control : s.control = .ctxEnter deltaFrame60
  running : s.running = rest
  index : s.moduleStackIndex = k
  inside : k < MAX_MODULE_STACK_DEPTH
  nested : (k :: rest).Pairwise (· > ·)
  isAbortReq : s.isAbortReq = false
  resting : Resting (s.moduleStack k) t ttl60 (setup root k)
  above : ∀ i, k < i → i < MAX_MODULE_STACK_DEPTH → Vacant (s.moduleStack i)

theorem Entering.valid {t : ScriptTree} {ttl60 deltaFrame60 : Nat}
    (entering : Entering root s k rest t ttl60 deltaFrame60) : s.isValidForExecution = true := by
  have top : s.getSP = s.moduleStack k := by rw [getSP, entering.index]
  refine isValidForExecution_iff.mpr ⟨entering.isAbortReq, ?_, ?_⟩
  · rw [top]
    exact entering.resting.asModule
  · rw [top]
    exact entering.resting.status

theorem Entering.plain {t : ScriptTree} {ttl60 deltaFrame60 : Nat}
    (entering : Entering root s k rest t ttl60 deltaFrame60) :
    Plain s.getSP.state (setup root s.moduleStackIndex) := by
  rw [getSP, entering.index]
  exact entering.resting.plain

/-- `calcCtx` leaves the waiting script as it is in `u`. -/
theorem Entering.returns {t : ScriptTree} {ttl60 deltaFrame60 left : Nat}
    (entering : Entering root s k rest t ttl60 deltaFrame60)
    (nothing : s.isPlaybackBeginPending = false)
    (slot : Resting (u.moduleStack k) t left (setup root k))
    (others : ∀ i, i ≠ k → u.moduleStack i = s.moduleStack i) (same : SameScripts s u) :
    Stopped root (u.calcCtxReturn false) k rest [t] left := by
  have running : u.running = rest := same.running.trans entering.running
  refine ⟨⟨same.isAbortReq.trans entering.isAbortReq, same.isPlaybackBeginPending.trans nothing⟩,
    ?_, running, ?_, ⟨slot, trivial⟩, fun i beyond inside => ?_⟩
  · simp only [calcCtxReturn, running]
  · show u.moduleStackIndex + 1 = k + 1
    rw [same.moduleStackIndex, entering.index]
  · have over' : k < i := by
      rw [← entering.index, ← same.moduleStackIndex]
      exact beyond
    show Vacant (u.moduleStack i)
    rw [others i (by omega)]
    exact entering.above i over' inside

/-- A blocked script is left alone. -/
theorem Entering.blocked {t : ScriptTree} {ttl60 deltaFrame60 : Nat}
    (entering : Entering root s k rest t ttl60 deltaFrame60)
    (nothing : s.isPlaybackBeginPending = false) (stops : s.slotBlocked root k = true) :
    Stopped root s.tick k rest [t] ttl60 ∧ Kept s s.tick k [] := by
  have answer := isBlockedFromScheduling_plain nothing entering.plain
  rw [entering.index, stops] at answer
  have ticked : s.tick = s.calcCtxReturn false := by
    simp only [tick, entering.control, calcCtxEnter, entering.valid, Bool.true_eq_false, if_false,
      answer, if_true]
  rw [ticked]
  exact ⟨entering.returns nothing entering.resting (fun _ _ => rfl) (.refl s), fun _ _ => rfl,
    .of_eq rfl rfl, (List.append_nil _).symm⟩

theorem Entering.tick_unblocked {t : ScriptTree} {ttl60 deltaFrame60 : Nat}
    (entering : Entering root s k rest t ttl60 deltaFrame60)
    (answer : s.isBlockedFromScheduling = (false, s))
    (top : s.isPlaybackBeginPending = false ∨ s.moduleStackIndex = 0) :
    ∃ spent60 u, Charged s u k deltaFrame60 spent60 ∧
      s.tick = if (ttl60 - spent60 == 0) = false ∧ s.isPlaybackBeginPending = false then
          u.calcCtxReturn false
        else { u with isPlaybackBeginPending := false }.beginExecute := by
  have valid := entering.valid
  have ttl : s.getSP.state.inputTTL60 = ttl60 := by
    rw [getSP, entering.index, entering.resting.inputTTL60]
  have inside : s.moduleStackIndex < MAX_MODULE_STACK_DEPTH := entering.index.symm ▸ entering.inside
  obtain ⟨spent60, u, charged, consumed⟩ := calcConsumeFrametime_plain inside top deltaFrame60
  rw [entering.index] at charged
  refine ⟨spent60, u, charged, ?_⟩
  simp only [tick, entering.control, calcCtxEnter, valid, Bool.true_eq_false, if_false, answer,
    Bool.false_eq_true, consumed, ttl, charged.same.isPlaybackBeginPending]

theorem Charged.resting {t : ScriptTree} {ttl60 deltaFrame60 spent60 : Nat} {setup : Setup}
    (charged : Charged s u k deltaFrame60 spent60) (resting : Resting (s.moduleStack k) t ttl60 setup) :
    Resting (u.moduleStack k) t (ttl60 - spent60) setup := by
  obtain ⟨asModule, status, doSuspend, doAbort, program, ttl, request, target, debug, loading,
    mode⟩ := resting
  rw [charged.slot]
  exact ⟨asModule, status, doSuspend, doAbort, program, by rw [ttl], request, target, debug,
    loading, mode⟩

/-- The script is executed once its time is up. -/
theorem Entering.executes {t : ScriptTree} {ttl60 deltaFrame60 spent60 : Nat}
    (entering : Entering root s k rest t ttl60 deltaFrame60)
    (charged : Charged s u k deltaFrame60 spent60) (beyond : ttl60 - spent60 = 0) :
    Executing root { u with isPlaybackBeginPending := false }.beginExecute k rest t ∧
      Kept s { u with isPlaybackBeginPending := false }.beginExecute k [.execute k] := by
  have slot := charged.resting entering.resting
  rw [beyond] at slot
  have index : u.moduleStackIndex = k := charged.same.moduleStackIndex.trans entering.index
  have running : u.running = rest := charged.same.running.trans entering.running
  have abortReq : u.isAbortReq = false := charged.same.isAbortReq.trans entering.isAbortReq
  obtain ⟨asModule, status, doSuspend, doAbort, program, ttl, plainSlot⟩ := slot
  refine ⟨⟨⟨abortReq, rfl⟩, rfl, ?_, index, entering.inside, entering.nested, ?_, ?_, ?_, ?_,
    fun i beyond inside => ?_⟩, fun i less => ?_, charged.pauses.trans (.of_eq rfl rfl), ?_⟩
  · simp [beginExecute, index, running]
  · simpa [beginExecute, modifyCtx, index] using asModule
  · simp [beginExecute, modifyCtx, index, program, doSuspend, doAbort]
  · simpa [beginExecute, modifyCtx, index] using ttl
  · simpa [beginExecute, modifyCtx, index] using plainSlot
  · have different : i ≠ k := by omega
    have vacant := entering.above i beyond inside
    rw [← charged.others i different] at vacant
    simpa [beginExecute, modifyCtx, index, different] using vacant
  · have different : i ≠ k := by omega
    rw [← charged.others i different]
    simp [beginExecute, modifyCtx, index, different]
  · simp [beginExecute, index, charged.events]

/-- A script that is not blocked waits until its input is over, and is executed then. -/
theorem Entering.unblocked {t : ScriptTree} {ttl60 deltaFrame60 : Nat}
    (entering : Entering root s k rest t ttl60 deltaFrame60)
    (nothing : s.isPlaybackBeginPending = false) (free : s.slotBlocked root k = false) :
    ∃ spent60, spent60 ≤ deltaFrame60 ∧
      (s.isPauseRequest DebugPause = false → spent60 = deltaFrame60) ∧
      if ttl60 - spent60 ≠ 0 then
        Stopped root s.tick k rest [t] (ttl60 - spent60) ∧ Kept s s.tick k []
      else Executing root s.tick k rest t ∧ Kept s s.tick k [.execute k] := by
  have answer := isBlockedFromScheduling_plain nothing entering.plain
  rw [entering.index, free] at answer
  obtain ⟨spent60, u, charged, ticked⟩ := entering.tick_unblocked answer (.inl nothing)
  refine ⟨spent60, charged.atMost, charged.unpaused, ?_⟩
  by_cases longer : ttl60 - spent60 ≠ 0
  · rw [if_pos longer]
    rw [if_pos ⟨by simpa using longer, nothing⟩] at ticked
    rw [ticked]
    refine ⟨entering.returns nothing (charged.resting entering.resting) charged.others charged.same,
      fun i less => charged.others i (Nat.ne_of_lt less), charged.pauses.trans (.of_eq rfl rfl), ?_⟩
    rw [List.append_nil]
    exact charged.events
  · rw [if_neg longer]
    rw [if_neg (by simpa using fun is : ¬_ => absurd is longer)] at ticked
    rw [ticked]
    exact entering.executes charged (by omega)

/-- A pending script is executed whatever is paused. -/
theorem Entering.pending {t : ScriptTree} {deltaFrame60 : Nat}
    (entering : Entering root s 0 rest t 0 deltaFrame60) (waits : s.isPlaybackBeginPending = true) :
    Executing root s.tick 0 rest t ∧ Kept s s.tick 0 [.execute 0] := by
  have answer : s.isBlockedFromScheduling = (false, s) := by
    simp [isBlockedFromScheduling, waits]
  obtain ⟨spent60, u, charged, ticked⟩ := entering.tick_unblocked answer (.inr entering.index)
  rw [if_neg (by simp [waits])] at ticked
  rw [ticked]
  exact entering.executes charged (Nat.zero_sub _)

theorem stacked_append (s : Sched) (k : Nat) (upper lower : List ScriptTree) (ttl60 : Nat) :
    s.Stacked root k (upper ++ lower) ttl60 ↔
      s.Stacked root (k + lower.length) upper ttl60 ∧
        s.Stacked root k lower (if upper = [] then ttl60 else 0) := by
  induction upper generalizing ttl60 with
  | nil => simp [Stacked]
  | cons t upper ih =>
    have slot : k + (upper ++ lower).length = k + lower.length + upper.length := by
      rw [List.length_append]
      omega
    have time : (if upper = [] then 0 else 0) = 0 := by split <;> rfl
    simp only [List.cons_append, Stacked, slot, ih, time, reduceCtorEq, if_false, and_assoc]

theorem Stacked.congr {stack : List ScriptTree} {ttl60 : Nat} (stacked : s.Stacked root k stack ttl60)
    (same : ∀ i, k ≤ i → i < k + stack.length → t.moduleStack i = s.moduleStack i) :
    t.Stacked root k stack ttl60 := by
  induction stack generalizing ttl60 with
  | nil => trivial
  | cons top below ih =>
    refine ⟨?_, ih stacked.2 fun i from_ below_ => same i from_ ?_⟩
    · rw [same (k + below.length) (Nat.le_add_right _ _) (by simp)]
      exact stacked.1
    · simp only [List.length_cons]
      omega

/-- Slot `k` has been asked to suspend, with tree `t` to go, below the waiting scripts
`upper`. -/
structure Suspending (root : Setup) (s : Sched) (k : Nat) (rest : List Nat) (t : ScriptTree)
    (upper : List ScriptTree) (ttl60 : Nat) : Prop where
  steady : s.Steady
  control : s.control = .boundary
  running : s.running = k :: rest
  asModule : (s.moduleStack k).asModule ≠ none
  asCtx : (s.moduleStack k).asCtx = ⟨.active, true, false, t.toScript⟩
  inputTTL60 : (s.moduleStack k).state.inputTTL60 = if upper = [] then ttl60 else 0
  plain : Plain (s.moduleStack k).state (setup root k)
  index : s.moduleStackIndex = k + upper.length
  upper : s.Stacked root (k + 1) upper ttl60
  above : ∀ i, s.moduleStackIndex < i → i < MAX_MODULE_STACK_DEPTH → Vacant (s.moduleStack i)

/-- Its `Execute` returns at the next statement boundary. -/
theorem Suspending.stops {t : ScriptTree} {upper : List ScriptTree} {ttl60 : Nat}
    (suspending : Suspending root s k rest t upper ttl60) :
    Stopped root s.tick k rest (upper ++ [t]) ttl60 ∧ Kept s s.tick k [] := by
  obtain ⟨steady, stands, running, asModule, asCtx, ttl, plain, index, stacked, above⟩ := suspending
  have ticked : s.tick = (s.leaveExecute k .suspended).calcCtxReturn false := by
    simp [tick, stands, running, checkFlags, asCtx, executeReturn, calcCtxAfterExecute]
  have other (i : Nat) (different : i ≠ k) :
      (s.leaveExecute k .suspended).moduleStack i = s.moduleStack i := by
    simp [leaveExecute, modifyCtx, different]
  have own : (s.leaveExecute k .suspended).moduleStack k =
      { s.moduleStack k with asCtx := ⟨.suspended, false, false, t.toScript⟩ } := by
    simp [leaveExecute, modifyCtx, asCtx]
  rw [ticked]
  refine ⟨⟨⟨steady.1, steady.2⟩, ?_, ?_, ?_, ?_, fun i beyond inside => ?_⟩,
    fun i less => ?_, .of_eq rfl rfl, ?_⟩
  · simp [calcCtxReturn, leaveExecute, running]
  · simp [calcCtxReturn, leaveExecute, running]
  · show s.moduleStackIndex + 1 = k + (upper ++ [t]).length
    rw [index, List.length_append]
    rfl
  · refine (stacked_append _ k upper [t] ttl60).mpr ⟨stacked.congr fun i from_ _ => ?_, ?_, trivial⟩
    · exact other i (by omega)
    · show Resting ((s.leaveExecute k .suspended).moduleStack k) t _ _
      rw [own]
      exact ⟨asModule, .inl rfl, rfl, rfl, rfl, ttl, plain⟩
  · have over' : s.moduleStackIndex < i := beyond
    have different : i ≠ k := by omega
    show Vacant ((s.leaveExecute k .suspended).moduleStack i)
    rw [other i different]
    exact above i over' inside
  · exact other i (Nat.ne_of_lt less)
  · simp [calcCtxReturn, leaveExecute]

theorem Executing.run {t : ScriptTree} (executing : Executing root s k rest t) :
    s.tick.tick = ({ s with control := .run }).runStatement k := by
  have first : s.tick = { s with control := .run } := by
    simp [tick, executing.control, executing.running, checkFlags, executing.asCtx]
  have second : ({ s with control := .run }).tick = ({ s with control := .run }).runStatement k := by
    simp [tick, executing.running]
  rw [first, second]

theorem setCurrentInput_spec (s : Sched) (duration : Nat) (b : BitVec 64) (l r : AnalogStickState) :
    ∃ elapsedPlayback60, s.setCurrentInput duration b l r =
      let u : Sched := { (s.emit (.input s.moduleStackIndex (s.duration60 duration)
        (scheduledInput b l r))).modifyState s.moduleStackIndex (fun state =>
          { state with
            inputTTL60 := s.duration60 duration
            input := scheduledInput b l r
            playbackInputPassthroughMode := .playbackTasOnly }) with
        elapsedPlayback60 := elapsedPlayback60
        isPlaybackActive := true }
      if 0 < s.duration60 duration then u.trySuspendCtx else u := by
  simp only [setCurrentInput]
  by_cases active : s.isPlaybackActive = true
  · exact ⟨s.elapsedPlayback60, by simp [active]⟩
  · exact ⟨0, by simp [active]⟩

/-- The time an input is held in slot `k`. -/
def slotTime60 (root : Setup) (k duration : Nat) : Nat :=
  u32 (duration * (setup root k).inputFPSMode.factor)

/-- `tas::input`, whether or not it takes time. -/
theorem Executing.input {duration : Nat} {b : BitVec 64} {l r : AnalogStickState} {t : ScriptTree}
    (executing : Executing root s k rest (.input duration b l r t)) :
    Kept s s.tick.tick k [.input k (slotTime60 root k duration) (scheduledInput b l r)] ∧
      if 0 < slotTime60 root k duration then
        Suspending root s.tick.tick k rest t [] (slotTime60 root k duration)
      else Executing root s.tick.tick k rest t := by
  have ran := executing.run
  obtain ⟨steady, stands, running, index, inside, nested, asModule, asCtx, ttl,
    ⟨request, target, debug, loading, mode⟩, above⟩ := executing
  set v : Sched := ({ s with control := .run }).setProgram k t.toScript with hv
  have called : ({ s with control := .run }).runStatement k =
      v.setCurrentInput duration b l r := by
    simp [runStatement, asCtx, ScriptTree.toScript, callBind, hv]
  have top : v.moduleStackIndex = k := index
  have vslot : v.moduleStack k = { s.moduleStack k with asCtx := ⟨.active, false, false, t.toScript⟩ } := by
    simp [hv, setProgram, modifyCtx, asCtx]
  have vother (i : Nat) (different : i ≠ k) : v.moduleStack i = s.moduleStack i := by
    simp [hv, setProgram, modifyCtx, different]
  have time : v.duration60 duration = slotTime60 root k duration := by
    simp only [duration60, getSP, top, vslot, mode, slotTime60]
  obtain ⟨elapsed, scheduled⟩ := v.setCurrentInput_spec duration b l r
  rw [time, top] at scheduled
  obtain ⟨u, result, slots, uindex, usteady, urunning, ucontrol, upauses, uevents⟩ : ∃ u : Sched,
      v.setCurrentInput duration b l r =
        (if 0 < slotTime60 root k duration then u.trySuspendCtx else u) ∧
      (∀ i, u.moduleStack i = if i = k then { s.moduleStack k with
        asCtx := ⟨.active, false, false, t.toScript⟩
        state := { (s.moduleStack k).state with
          inputTTL60 := slotTime60 root k duration
          input := scheduledInput b l r
          playbackInputPassthroughMode := .playbackTasOnly } } else s.moduleStack i) ∧
      u.moduleStackIndex = k ∧ u.Steady ∧ u.running = k :: rest ∧ u.control = .boundary ∧
      KeepsPauses s u ∧
      u.events = s.events ++ [.input k (slotTime60 root k duration) (scheduledInput b l r)] := by
    refine ⟨_, scheduled, fun i => ?_, ?_, ⟨?_, ?_⟩, ?_, ?_, .of_eq ?_ (funext fun i => ?_), ?_⟩
    · by_cases same : i = k <;> simp [modifyState, same, vslot, vother]
    · simp [top]
    · simp [hv, setProgram, steady.1]
    · simp [hv, setProgram, steady.2]
    · simp [hv, setProgram, running]
    all_goals simp [hv, setProgram]
  have own := slots k
  rw [if_pos rfl] at own
  have other (i : Nat) (different : i ≠ k) : u.moduleStack i = s.moduleStack i := by
    rw [slots, if_neg different]
  rw [ran, called, result]
  by_cases yields : 0 < slotTime60 root k duration
  · simp only [if_pos yields]
    have own' : u.trySuspendCtx.moduleStack k =
        { u.moduleStack k with asCtx := ⟨.active, true, false, t.toScript⟩ } := by
      simp [trySuspendCtx, modifyCtx, uindex, own, ScriptContext.suspend]
    have other' (i : Nat) (different : i ≠ k) :
        u.trySuspendCtx.moduleStack i = s.moduleStack i := by
      simp [trySuspendCtx, modifyCtx, uindex, different, other]
    refine ⟨⟨fun i less => other' i (Nat.ne_of_lt less), upauses.trans (.of_eq rfl rfl), uevents⟩,
      ⟨usteady.1, usteady.2⟩, ucontrol, urunning, ?_, ?_, ?_, ?_, uindex, trivial,
      fun i beyond within => ?_⟩
    · simpa [own', own] using asModule
    · simp [own']
    · simp [own', own]
    · constructor <;> simp [own', own, request, target, debug, loading, mode]
    · have over' : k < i := uindex ▸ beyond
      rw [other' i (by omega)]
      exact above i over' within
  · have zero : slotTime60 root k duration = 0 := by omega
    simp only [if_neg yields]
    refine ⟨⟨fun i less => other i (Nat.ne_of_lt less), upauses, uevents⟩, usteady, ucontrol,
      urunning, uindex, inside, nested, ?_, ?_, ?_, ?_, fun i beyond within => ?_⟩
    · simpa [own] using asModule
    · simp [own]
    · simp [own, zero]
    · constructor <;> simp [own, request, target, debug, loading, mode]
    · rw [other i (by omega)]
      exact above i beyond within

/-- The slot of a pushed script, when the one below is taken and it was vacant. -/
def pushedSlot (m : Nat) (program : Script) (block : Bool) (parent frame : ModuleStackFrame) :
    ModuleStackFrame where
  asModule := some m
  asCtx := ⟨.prepared, false, false, program⟩
  state := { frame.resetState.state with
    input := parent.state.input
    playbackInputPassthroughMode := parent.state.playbackInputPassthroughMode
    blockOnDebugPause := block }

/-- An immediate push on top of the script that is being executed. -/
theorem pushExecModuleEntryPoint_nested (m : Nat) (program : Script) (block : Bool)
    (active : s.getSP.asCtx.status = .active) (taken : s.getSP.asModule ≠ none)
    (inside : s.moduleStackIndex + 1 < MAX_MODULE_STACK_DEPTH)
    (vacant : Vacant (s.moduleStack (s.moduleStackIndex + 1))) :
    s.pushExecModuleEntryPoint m true program true block =
      { s.trySuspendCtx.modifySlot (s.moduleStackIndex + 1)
          (pushedSlot m program block s.getSP) with
        moduleStackIndex := s.moduleStackIndex + 1
        control := .ctxEnter 0 } := by
  obtain ⟨empty, fresh⟩ := vacant
  have taken' : s.trySuspendCtx.getSP.asModule ≠ none := by
    simpa [trySuspendCtx, modifyCtx] using taken
  have inside' : s.trySuspendCtx.moduleStackIndex + 1 < MAX_MODULE_STACK_DEPTH := inside
  simp only [pushExecModuleEntryPoint, if_pos active, if_neg taken', if_pos inside']
  simp [enterSlot, inheritOnPush, trySuspendCtx, modifyCtx, setModule, modifyState, modifySlot,
    ModuleStackFrame.resetState, empty, pushedSlot, ScriptContext.prepare, fresh]

/-- A state in which slot `k` waits below the script it just pushed. -/
structure Pushing (root : Setup) (s : Sched) (k : Nat) (rest : List Nat) (child t : ScriptTree) :
    Prop where
  steady : s.Steady
  entering : Entering root s (k + 1) (k :: rest) child 0 0
  asModule : (s.moduleStack k).asModule ≠ none
  asCtx : (s.moduleStack k).asCtx = ⟨.active, true, false, t.toScript⟩
  inputTTL60 : (s.moduleStack k).state.inputTTL60 = 0
  plain : Plain (s.moduleStack k).state (setup root k)

theorem pushedSlot_resting (m : Nat) (child : ScriptTree) (parent frame : ModuleStackFrame) :
    Resting (pushedSlot m child.toScript true parent frame) child 0 ⟨true, .fps30_2X⟩ :=
  ⟨nofun, .inr rfl, rfl, rfl, rfl, rfl, rfl, rfl, rfl, rfl, rfl⟩

/-- A nested exec bind. -/
theorem Executing.push {bind : ExecBind} {child t : ScriptTree}
    (executing : Executing root s k rest (.nested bind child t))
    (room : k + 1 < MAX_MODULE_STACK_DEPTH) :
    Pushing root s.tick.tick k rest child t ∧ Kept s s.tick.tick k [] := by
  have ran := executing.run
  obtain ⟨steady, stands, running, index, inside, nested, asModule, asCtx, ttl,
    ⟨request, target, debug, loading, mode⟩, above⟩ := executing
  set v : Sched := ({ s with control := .run }).setProgram k t.toScript with hv
  have called : ({ s with control := .run }).runStatement k =
      v.pushExec ⟨bind, .good, true, true⟩ child.toScript := by
    simp [runStatement, asCtx, ScriptTree.toScript, hv]
  rw [ran, called]
  have pushed := v.pushed_pushExec ⟨bind, .good, true, true⟩ child.toScript
  generalize v.pushExec ⟨bind, .good, true, true⟩ child.toScript = u at pushed ⊢
  have vslot : v.moduleStack k = { s.moduleStack k with asCtx := ⟨.active, false, false, t.toScript⟩ } := by
    simp [hv, setProgram, modifyCtx, asCtx]
  have vother (i : Nat) (different : i ≠ k) : v.moduleStack i = s.moduleStack i := by
    simp [hv, setProgram, modifyCtx, different]
  cases pushed with
  | refused _ without => simp [getsModule, ScriptSource.good] at without
  | @entered m w _ provided =>
    have same : w.moduleStack = v.moduleStack ∧ w.moduleStackIndex = k ∧ w.Steady ∧
        w.running = k :: rest ∧ KeepsPauses s w ∧ w.events = s.events := by
      cases provided <;> exact ⟨rfl, index, ⟨steady.1, steady.2⟩, running, .of_eq rfl rfl, rfl⟩
    obtain ⟨slots, windex, wsteady, wrunning, wpauses, wevents⟩ := same
    have top : w.getSP = { s.moduleStack k with asCtx := ⟨.active, false, false, t.toScript⟩ } := by
      rw [getSP, slots, windex, vslot]
    have vacant : Vacant (w.moduleStack (w.moduleStackIndex + 1)) := by
      rw [slots, windex, vother _ (by omega)]
      exact above (k + 1) (by omega) room
    have result := pushExecModuleEntryPoint_nested m child.toScript true (s := w) (by rw [top])
      (by rw [top]; exact asModule) (by rw [windex]; exact room) vacant
    show Pushing root (w.pushExecModuleEntryPoint m true child.toScript true true) k rest child t ∧
      Kept s (w.pushExecModuleEntryPoint m true child.toScript true true) k []
    rw [result, windex]
    have other (i : Nat) (notTop : i ≠ k) (notPushed : i ≠ k + 1) :
        (w.trySuspendCtx.modifySlot (k + 1)
          (pushedSlot m child.toScript true w.getSP)).moduleStack i = s.moduleStack i := by
      simp [trySuspendCtx, modifyCtx, windex, notTop, notPushed, slots, vother]
    have own : (w.trySuspendCtx.modifySlot (k + 1)
        (pushedSlot m child.toScript true w.getSP)).moduleStack k =
        { s.moduleStack k with asCtx := ⟨.active, true, false, t.toScript⟩ } := by
      simp [trySuspendCtx, modifyCtx, windex, slots, vslot, ScriptContext.suspend]
    refine ⟨⟨⟨wsteady.1, wsteady.2⟩, ⟨rfl, wrunning, rfl, room, ?_, wsteady.1, ?_,
      fun i beyond within => ?_⟩, ?_, ?_, ?_, ?_⟩, fun i less => ?_, wpauses.trans (.of_eq rfl rfl), ?_⟩
    · refine List.pairwise_cons.mpr ⟨fun i member => ?_, nested⟩
      rcases List.mem_cons.mp member with rfl | deeper
      · exact Nat.lt_succ_self _
      · exact Nat.lt_succ_of_lt (List.rel_of_pairwise_cons nested deeper)
    · simp only [modifySlot_moduleStack, if_true]
      exact pushedSlot_resting _ _ _ _
    · show Vacant ((w.trySuspendCtx.modifySlot (k + 1) _).moduleStack i)
      rw [other i (by omega) (by omega)]
      exact above i (by omega) within
    · show ((w.trySuspendCtx.modifySlot (k + 1) _).moduleStack k).asModule ≠ none
      rw [own]
      exact asModule
    · show ((w.trySuspendCtx.modifySlot (k + 1) _).moduleStack k).asCtx = _
      rw [own]
    · show ((w.trySuspendCtx.modifySlot (k + 1) _).moduleStack k).state.inputTTL60 = 0
      rw [own]
      exact ttl
    · show Plain ((w.trySuspendCtx.modifySlot (k + 1) _).moduleStack k).state _
      rw [own]
      exact ⟨request, target, debug, loading, mode⟩
    · exact other i (by omega) (by omega)
    · show w.events = s.events ++ []
      rw [wevents, List.append_nil]

/-- A script that ran to its end has left slot `k`, and nothing else but the input of the
slot below is touched. -/
structure Popped (s u : Sched) (k : Nat) (rest : List Nat) : Prop where
  steady : u.Steady
  running : u.running = rest
  vacant : Vacant (u.moduleStack k)
  asModule : ∀ i, i ≠ k → (u.moduleStack i).asModule = (s.moduleStack i).asModule
  asCtx : ∀ i, i ≠ k → (u.moduleStack i).asCtx = (s.moduleStack i).asCtx
  inputTTL60 : ∀ i, i ≠ k → (u.moduleStack i).state.inputTTL60 = (s.moduleStack i).state.inputTTL60
  plain : ∀ i, i ≠ k → ∀ setup, Plain (s.moduleStack i).state setup →
    Plain (u.moduleStack i).state setup
  pauses : KeepsPauses s u
  events : u.events = s.events

theorem Popped.resting {i : Nat} {t : ScriptTree} {ttl60 : Nat} {setup : Setup}
    (popped : Popped s u k rest) (other : i ≠ k) (resting : Resting (s.moduleStack i) t ttl60 setup) :
    Resting (u.moduleStack i) t ttl60 setup := by
  obtain ⟨asModule, status, doSuspend, doAbort, program, ttl, plain⟩ := resting
  refine ⟨?_, ?_, ?_, ?_, ?_, ?_, popped.plain i other setup plain⟩
  · rwa [popped.asModule i other]
  · rwa [popped.asCtx i other]
  · rwa [popped.asCtx i other]
  · rwa [popped.asCtx i other]
  · rwa [popped.asCtx i other]
  · rwa [popped.inputTTL60 i other]

theorem Popped.stacked {stack : List ScriptTree} {ttl60 : Nat} {j : Nat}
    (popped : Popped s u k rest) (under : j + stack.length ≤ k)
    (stacked : s.Stacked root j stack ttl60) : u.Stacked root j stack ttl60 := by
  induction stack generalizing ttl60 with
  | nil => trivial
  | cons top below ih =>
    simp only [List.length_cons] at under
    exact ⟨popped.resting (by omega) stacked.1, ih (by omega) stacked.2⟩

/-- The script has left its slot when its module is given up. -/
theorem Executing.popped (executing : Executing root s k rest .done) :
    Popped s ({ s with control := .run } : Sched).beforePop.tryDiscardLastModuleForPop k rest ∧
      ({ s with control := .run } : Sched).beforePop.tryDiscardLastModuleForPop.moduleStackIndex = k := by
  obtain ⟨steady, stands, running, index, inside, nested, asModule, asCtx, ttl, plain, above⟩ :=
    executing
  obtain ⟨modules, discards, control, left⟩ := tryDiscardLastModuleForPop_stack
    (s := ({ s with control := .run } : Sched).beforePop)
  have own : (({ s with control := .run } : Sched).beforePop.tryDiscardLastModuleForPop.moduleStack k) =
      { s.moduleStack k with asModule := none, asCtx := ⟨.uninitialized, false, false, .done⟩ } := by
    rw [left]
    simp [setModule, beforePop, leaveExecute, modifyCtx, index, asCtx, ScriptContext.unprepare]
  have other (i : Nat) (different : i ≠ k) :
      ({ s with control := .run } : Sched).beforePop.tryDiscardLastModuleForPop.moduleStack i =
        s.moduleStack i := by
    rw [left]
    simp [setModule, beforePop, leaveExecute, modifyCtx, index, different]
  generalize ({ s with control := .run } : Sched).beforePop.tryDiscardLastModuleForPop = w at *
  subst left
  refine ⟨⟨⟨?_, ?_⟩, ?_, ?_, fun i different => ?_, fun i different => ?_, fun i different => ?_,
    fun i different setup is => ?_, .of_eq ?_ (funext fun i => ?_), ?_⟩, ?_⟩
  · simp [setModule, beforePop, leaveExecute, steady.1]
  · simp [setModule, beforePop, leaveExecute, steady.2]
  · simp [setModule, beforePop, leaveExecute, modifyCtx, running]
  · rw [own]
    exact ⟨rfl, rfl⟩
  · rw [other i different]
  · rw [other i different]
  · rw [other i different]
  · rwa [other i different]
  · simp [setModule, beforePop, leaveExecute]
  · simp [setModule, beforePop, leaveExecute]
  · simp [setModule, beforePop, leaveExecute]
  · simp [setModule, beforePop, leaveExecute, index]

/-- The slot below takes over the input if its own is over, and nothing else. -/
theorem inheritOnPop_spec (s : Sched) (k : Nat) :
    KeepsPauses s (s.inheritOnPop k) ∧ (s.inheritOnPop k).events = s.events ∧
      ∀ i, ((s.inheritOnPop k).moduleStack i).state.inputTTL60 = (s.moduleStack i).state.inputTTL60 ∧
        ∀ setup, Plain (s.moduleStack i).state setup →
          Plain ((s.inheritOnPop k).moduleStack i).state setup := by
  unfold inheritOnPop
  split
  · refine ⟨.of_eq rfl rfl, rfl, fun i => ?_⟩
    by_cases parent : i = k - 1
    · simp only [modifyState, modifySlot_moduleStack, if_pos parent]
      subst parent
      exact ⟨rfl, fun setup is => ⟨is.1, is.2, is.3, is.4, is.5⟩⟩
    · simp only [modifyState, modifySlot_moduleStack, if_neg parent]
      exact ⟨trivial, fun _ => id⟩
  · exact ⟨.of_eq rfl rfl, rfl, fun i => ⟨rfl, fun _ => id⟩⟩

theorem Popped.inherits (popped : Popped s u k rest) (index : u.moduleStackIndex = k) :
    Popped s { u.inheritOnPop k with
      moduleStackIndex := (u.inheritOnPop k).moduleStackIndex - 1
      control := .ctxEnter 0 } k rest := by
  have inherited := u.sameScripts_inheritOnPop
  rw [index] at inherited
  obtain ⟨pauses, events, slot⟩ := u.inheritOnPop_spec k
  refine ⟨⟨inherited.isAbortReq.trans popped.steady.1, inherited.isPlaybackBeginPending.trans popped.steady.2⟩,
    inherited.running.trans popped.running, ⟨?_, ?_⟩, fun i different => ?_, fun i different => ?_,
    fun i different => ?_, fun i different setup is => ?_, (popped.pauses.trans pauses).trans (.of_eq rfl rfl),
    events.trans popped.events⟩
  · exact (inherited.asModule k).trans popped.vacant.1
  · exact (congrArg ScriptContext.status (inherited.asCtx k)).trans popped.vacant.2
  · exact (inherited.asModule i).trans (popped.asModule i different)
  · exact (inherited.asCtx i).trans (popped.asCtx i different)
  · exact (slot i).1.trans (popped.inputTTL60 i different)
  · exact (slot i).2 setup (popped.plain i different setup is)

/-- `calcCtx` goes on behind the pop. -/
theorem Executing.finishes (executing : Executing root s k rest .done) (whole : s.Whole) :
    ∃ w, Popped s w k rest ∧ w.moduleStackIndex = k ∧ s.tick.tick =
      if k = 0 then w.calcCtxReturn true
      else
        { w.inheritOnPop k with
          moduleStackIndex := (w.inheritOnPop k).moduleStackIndex - 1
          control := .ctxEnter 0 } := by
  have ran := executing.run
  obtain ⟨popped, index⟩ := executing.popped
  have top : ({ s with control := .run } : Sched).moduleStackIndex = k := executing.index
  have called : ({ s with control := .run } : Sched).runStatement k =
      ({ s with control := .run } : Sched).executeReturn k .finished := by
    simp [runStatement, executing.asCtx, ScriptTree.toScript]
  generalize ({ s with control := .run } : Sched) = v at ran popped index top called
  have finished := v.executeReturn_finished_eq
  rw [top] at finished
  generalize v.beforePop.tryDiscardLastModuleForPop = w at popped index finished
  have first : w.control ≠ .crash := by
    intro crashed
    refine whole 2 ?_
    show s.tick.tick.control = .crash
    rw [ran, called, finished, if_pos crashed, crashed]
  exact ⟨w, popped, index, by rw [ran, called, finished, if_neg first, index]⟩

/-- The end of a script, up to where `calcCtx` goes on. -/
theorem Executing.pops (executing : Executing root s k rest .done) (whole : s.Whole) :
    Popped s s.tick.tick k rest ∧
      if k = 0 then s.tick.tick.control = if rest = [] then .idle else .boundary
      else s.tick.tick.control = .ctxEnter 0 ∧ s.tick.tick.moduleStackIndex = k - 1 := by
  obtain ⟨w, popped, index, after⟩ := executing.finishes whole
  rw [after]
  by_cases bottom : k = 0
  · rw [if_pos bottom, if_pos bottom]
    exact ⟨⟨⟨popped.steady.1, popped.steady.2⟩, popped.running, popped.vacant, popped.asModule, popped.asCtx,
      popped.inputTTL60, popped.plain, popped.pauses.trans (.of_eq rfl rfl), popped.events⟩,
      by simp [calcCtxReturn, popped.running]⟩
  · rw [if_neg bottom, if_neg bottom]
    have inherited := w.sameScripts_inheritOnPop
    rw [index] at inherited
    refine ⟨popped.inherits index, rfl, ?_⟩
    show (w.inheritOnPop k).moduleStackIndex - 1 = k - 1
    rw [inherited.moduleStackIndex, index]

theorem Kept.weaken {events : List Event} {j : Nat} (kept : Kept s t k events) (under : j ≤ k) :
    Kept s t j events :=
  ⟨fun i less => kept.below i (Nat.lt_of_lt_of_le less under), kept.pauses, kept.events⟩

/-- The parent of scripts that wait is about to return from its own `Execute`. -/
theorem Pushing.suspending {child t : ScriptTree} {stack : List ScriptTree} {ttl60 : Nat}
    {events : List Event} (pushing : Pushing root s k rest child t)
    (stopped : Stopped root u (k + 1) (k :: rest) stack ttl60) (kept : Kept s u (k + 1) events)
    (nonempty : stack ≠ []) : Suspending root u k rest t stack ttl60 := by
  have own := kept.below k (Nat.lt_succ_self k)
  refine ⟨stopped.steady, stopped.control, stopped.running, ?_, ?_, ?_, ?_, ?_, stopped.stacked,
    stopped.above⟩
  · rw [own]
    exact pushing.asModule
  · rw [own]
    exact pushing.asCtx
  · rw [own, if_neg nonempty]
    exact pushing.inputTTL60
  · rw [own]
    exact pushing.plain
  · have index := stopped.index
    omega

/-- A nested script that ends within the `Execute` of its parent. -/
theorem Pushing.aborts {child t : ScriptTree} {events : List Event}
    (pushing : Pushing root s k rest child t) (kept : Kept s u (k + 1) events)
    (ended : Executing root u (k + 1) (k :: rest) .done) (whole : u.Whole) : u.Aborts := by
  obtain ⟨popped, goes⟩ := ended.pops whole
  rw [if_neg (Nat.succ_ne_zero k)] at goes
  have index : u.tick.tick.moduleStackIndex = k := goes.2
  have nested : (k :: rest).Pairwise (· > ·) := List.Pairwise.of_cons ended.nested
  refine .of_leads u.leads_two_ticks (aborts_of_invalid goes.1 ?_ ?_ fun i member => ?_)
  · by_contra valid
    have status := (isValidForExecution_iff.mp (by simpa using valid)).2.2
    have active : u.tick.tick.getSP.asCtx.status = .active := by
      rw [getSP, index, popped.asCtx k (by omega), kept.below k (Nat.lt_succ_self k), pushing.asCtx]
    rw [active] at status
    rcases status with is | is <;> cases is
  · rw [popped.running]
    exact nested
  · rw [popped.running] at member
    have inside := ended.inside
    rcases List.mem_cons.mp member with rfl | deeper
    · omega
    · have := List.rel_of_pairwise_cons nested deeper
      omega

/-- What the ends of a burst mean for the scheduler. -/
def BurstLeads (root : Setup) (s : Sched) (k : Nat) (rest : List Nat) : ScriptTree.Burst → Prop
  | .finished events => ∃ u, Leads tick s u ∧ Executing root u k rest .done ∧ Kept s u k events
  | .stopped events stack ttl60 =>
    ∃ u, Leads tick s u ∧ Stopped root u k rest stack ttl60 ∧ Kept s u k events
  | .aborted => s.Aborts

theorem BurstLeads.after {events : List Event} {burst : ScriptTree.Burst} (leads : Leads tick s t)
    (kept : Kept s t k events) (later : BurstLeads root t k rest burst) :
    BurstLeads root s k rest (burst.after events) := by
  cases burst with
  | finished more =>
    obtain ⟨u, leadsU, ended, keptU⟩ := later
    exact ⟨u, leads.trans leadsU, ended, kept.trans keptU⟩
  | stopped more stack ttl60 =>
    obtain ⟨u, leadsU, stopped, keptU⟩ := later
    exact ⟨u, leads.trans leadsU, stopped, kept.trans keptU⟩
  | aborted => exact later.of_leads leads

/-- The scheduler plays an `Execute` the way the stack machine does as long as no module is
discarded twice, where nothing blocks unless a pause is in force, or frame advance can put it in force. -/
theorem burst_leads (scaling : root.inputFPSMode = .fps30_2X) (t : ScriptTree) (s : Sched) (k : Nat)
    (rest : List Nat) (executing : Executing root s k rest t) (whole : s.Whole)
    (room : k + t.depth < MAX_MODULE_STACK_DEPTH) :
    ∃ blocked : Nat → Bool,
      (s.isFrameAdvance = false → s.Unpaused → ∀ i, blocked i = false) ∧
        BurstLeads root s k rest (t.burst blocked k) := by
  have time (k duration : Nat) : slotTime60 root k duration = ScriptTree.time60 duration := by
    by_cases bottom : k = 0
    · rw [slotTime60, setup, if_pos bottom, scaling, ScriptTree.time60]
    · rw [slotTime60, setup, if_neg bottom, ScriptTree.time60]
  induction t generalizing s k rest with
  | done =>
    exact ⟨fun _ => false, fun _ _ _ => rfl, s, .refl s, executing, fun _ _ => rfl, .refl s,
      (List.append_nil _).symm⟩
  | input duration b l r t ih =>
    obtain ⟨kept, next⟩ := executing.input
    rw [time] at kept next
    by_cases yields : 0 < ScriptTree.time60 duration
    · rw [if_pos yields] at next
      obtain ⟨stopped, keptStop⟩ := next.stops
      refine ⟨fun _ => false, fun _ _ _ => rfl, ?_⟩
      rw [ScriptTree.burst, if_pos yields]
      refine ⟨_, s.leads_two_ticks.trans (leads_tick _), stopped, ?_⟩
      simpa only [List.append_nil, ScriptTree.inputEvent] using kept.trans keptStop
    · rw [if_neg yields] at next
      obtain ⟨blocked, free, leads⟩ := ih _ k rest next (whole.leads s.leads_two_ticks) room
      refine ⟨blocked, fun calm unpaused => free (kept.pauses.isFrameAdvance.trans calm)
        (kept.pauses.unpaused calm unpaused), ?_⟩
      rw [ScriptTree.burst, if_neg yields]
      exact .after s.leads_two_ticks kept leads
  | nested bind child t ihChild ihRest =>
    simp only [ScriptTree.depth] at room
    obtain ⟨pushing, kept⟩ := executing.push (by omega)
    have entering := pushing.entering
    by_cases isBlocked : s.tick.tick.slotBlocked root (k + 1) = true
    · refine ⟨fun _ => true, fun calm unpaused => ?_, ?_⟩
      · rw [(kept.pauses.unpaused calm unpaused).slotBlocked] at isBlocked
        cases isBlocked
      · obtain ⟨stopped, keptStop⟩ := entering.blocked pushing.steady.2 isBlocked
        obtain ⟨out, keptOut⟩ := (pushing.suspending stopped keptStop (by simp)).stops
        rw [ScriptTree.burst, if_pos rfl]
        refine ⟨_, (s.leads_two_ticks.trans (leads_tick _)).trans (leads_tick _), out, ?_⟩
        simpa only [List.append_nil] using (kept.trans (keptStop.weaken (by omega))).trans keptOut
    · obtain ⟨spent60, -, -, begun⟩ := entering.unblocked pushing.steady.2 (by simpa using isBlocked)
      rw [if_neg (by simp)] at begun
      obtain ⟨begun, keptBegun⟩ := begun
      have reached := s.leads_two_ticks.trans (leads_tick _)
      obtain ⟨blockedChild, free, later⟩ := ihChild _ (k + 1) (k :: rest) begun (whole.leads reached)
        (by omega)
      refine ⟨Function.update blockedChild (k + 1) false, fun calm unpaused i => ?_, ?_⟩
      · by_cases own : i = k + 1
        · rw [own, Function.update_self]
        · have pauses := kept.pauses.trans keptBegun.pauses
          rw [Function.update_of_ne own]
          exact free (pauses.isFrameAdvance.trans calm) (pauses.unpaused calm unpaused) i
      rw [ScriptTree.burst_nested_update, if_neg Bool.false_ne_true]
      cases ends : child.burst blockedChild (k + 1) with
      | finished events =>
        rw [ends] at later
        obtain ⟨u, leads, ended, keptChild⟩ := later
        exact .of_leads (reached.trans leads) (pushing.aborts (keptBegun.trans keptChild) ended
          (whole.leads (reached.trans leads)))
      | stopped events stack ttl60 =>
        rw [ends] at later
        obtain ⟨u, leads, stopped, keptChild⟩ := later
        have keptAll := keptBegun.trans keptChild
        have nonempty : stack ≠ [] := by
          have spec := ScriptTree.burst_spec blockedChild child (k + 1)
          rw [ends] at spec
          exact spec.nonempty
        obtain ⟨out, keptOut⟩ := (pushing.suspending stopped keptAll nonempty).stops
        refine ⟨_, (reached.trans leads).trans (leads_tick _), out, ?_⟩
        simpa only [List.append_nil, List.nil_append] using
          (kept.trans (keptAll.weaken (by omega))).trans keptOut
      | aborted =>
        rw [ends] at later
        exact later.of_leads reached

end Sched

end LotusKit.Schedule

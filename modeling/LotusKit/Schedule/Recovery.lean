import LotusKit.Schedule.Lifetime

/-! Abort recovery. `abortStackImpl` restores everything but `isPlaybackBeginPending`, unless
it discards some module twice: with nothing pending and every module in one slot the scheduler
is as good as new, and with a deferred script pending it never executes a script again. -/

namespace LotusKit.Schedule
open LotusKit.Lib.Transition

def Action.isPush : Action → Bool
  | .push _ _ _ => true
  | _ => false

namespace Sched
variable {s t : Sched}

/-- Nothing on the stack and nothing to play, as after boot. -/
structure Idle (s : Sched) : Prop where
  control : s.control = .idle
  running : s.running = []
  moduleStackIndex : s.moduleStackIndex = 0
  asModule : ∀ i < MAX_MODULE_STACK_DEPTH, (s.moduleStack i).asModule = none
  unprepared : ∀ i < MAX_MODULE_STACK_DEPTH, (s.moduleStack i).asCtx.status = .uninitialized
  isPlaybackActive : s.isPlaybackActive = false
  isPlaybackBeginPending : s.isPlaybackBeginPending = false
  isAbortReq : s.isAbortReq = false
  stack : s.StackInv
  engine : s.EngineOk

/-- The script in slot 0 was just entered, with all of its program ahead. -/
structure AtEntryPoint (s : Sched) (program : Script) : Prop where
  control : s.control = .boundary
  running : s.running = [0]
  asCtx : (s.moduleStack 0).asCtx = ⟨.active, false, false, program⟩
  isAbortReq : s.isAbortReq = false
  events : ∃ before, s.events = before ++ [.execute 0]

/-- The scheduler from state `s` on, as long as nobody pushes a script. -/
def withoutPush (s : Sched) : System Sched Action where
  Start t := t = s
  Step t a u := Step t a u ∧ a.isPush = false

/-- What recovering in a frame of length `deltaFrame60` means: the state is the idle one,
no later frame aborts, and the next push that gets a module with an entry point has it
executed in the next frame. -/
structure Recovers (s : Sched) (deltaFrame60 : Nat) : Prop where
  idle : s.abortStackImpl.Idle
  quiet : ∀ t, (withoutPush (s.playbackCalc deltaFrame60)).Reachable t → t.isAbortReq = false
  plays : ∀ t, (withoutPush (s.playbackCalc deltaFrame60)).Reachable t → t.control = .idle →
    ∀ source answers program nextDelta60, t.getsModule source.target answers = true →
      answers.hasEntryPoint = true →
      ((t.pushFrom source answers program).playbackCalc nextDelta60).tick.AtEntryPoint program

/-- A frame of an idle scheduler does nothing. -/
theorem Idle.playbackResume (idle : s.Idle) (deltaFrame60 : Nat) :
    s.playbackResume deltaFrame60 = s := by
  rw [Sched.playbackResume, if_neg (by simp [idle.control]),
    if_pos ⟨idle.isPlaybackActive, idle.isPlaybackBeginPending⟩]

theorem Idle.playbackCalc (idle : s.Idle) (deltaFrame60 : Nat) :
    s.playbackCalc deltaFrame60 = s := by
  rw [Sched.playbackCalc, abortStackImpl_of_quiet idle.isAbortReq, idle.playbackResume]

/-- Without a push an idle scheduler stays idle. -/
theorem Idle.step {a : Action} (idle : s.Idle) (taken : Step s a t) (noPush : a.isPush = false) :
    t.Idle := by
  cases taken with
  | tick notIdle _ => exact absurd idle.control notIdle
  | push source answers program _ => cases noPush
  | frame deltaFrame60 _ =>
    rw [idle.playbackCalc]
    exact idle
  | pauses counts targets _ =>
    obtain ⟨index_lt, active, within, nested, above, stopping⟩ := idle.stack
    exact ⟨idle.control, idle.running, idle.moduleStackIndex, idle.asModule, idle.unprepared,
      idle.isPlaybackActive, idle.isPlaybackBeginPending, idle.isAbortReq,
      ⟨index_lt, active, within, nested, above, stopping⟩,
      idle.engine.congr ⟨fun _ => rfl, rfl, rfl, rfl⟩⟩

theorem Idle.withoutPush (idle : s.Idle) (reached : (withoutPush s).Reachable t) : t.Idle :=
  System.Reachable.invariant (fun _ start => start ▸ idle)
    (fun _ _ _ before taken => before.step taken.1 taken.2) reached

theorem Idle.provided {name : String} {m : Nat} (idle : s.Idle) (provided : Provided s name m t) :
    t.Idle := by
  have engine := (provided.engineOk idle.engine).1
  obtain ⟨index_lt, active, within, nested, above, stopping⟩ := idle.stack
  cases provided with
  | reused _ => exact idle
  | built _ =>
    exact ⟨idle.control, idle.running, idle.moduleStackIndex, idle.asModule, idle.unprepared,
      idle.isPlaybackActive, idle.isPlaybackBeginPending, idle.isAbortReq,
      ⟨index_lt, active, within, nested, above, stopping⟩, engine⟩

/-- A deferred script waits in slot 0 for the main loop. -/
structure Deferred (s : Sched) (program : Script) : Prop where
  control : s.control = .idle
  running : s.running = []
  moduleStackIndex : s.moduleStackIndex = 0
  asModule : (s.moduleStack 0).asModule ≠ none
  asCtx : (s.moduleStack 0).asCtx = ⟨.prepared, false, false, program⟩
  isPlaybackBeginPending : s.isPlaybackBeginPending = true
  isAbortReq : s.isAbortReq = false

theorem prepare_of_uninitialized {c : ScriptContext} (fresh : c.status = .uninitialized)
    (program : Script) : c.prepare program = ⟨.prepared, false, false, program⟩ := by
  simp [ScriptContext.prepare, fresh]

theorem Idle.deferred (idle : s.Idle) (m : Nat) (program : Script) (blockOnDebugPause : Bool) :
    (s.pushExecModuleEntryPoint m true program false blockOnDebugPause).Deferred program := by
  have fresh := idle.unprepared 0 (by decide)
  have empty := idle.asModule 0 (by decide)
  have inactive : s.getSP.asCtx.status ≠ .active := by
    rw [getSP, idle.moduleStackIndex, fresh]
    decide
  have top : s.getSP.asModule = none := by
    rw [getSP, idle.moduleStackIndex, empty]
  have prepared := prepare_of_uninitialized fresh program
  simp only [pushExecModuleEntryPoint, if_neg inactive, if_pos top, idle.moduleStackIndex]
  constructor <;> simp [enterSlot, ModuleStackFrame.resetState, empty, setModule, modifyState,
    modifyCtx, prepared, idle.control, idle.running, idle.isAbortReq]

theorem isBlockedFromScheduling_of_pending (pending : s.isPlaybackBeginPending = true) :
    s.isBlockedFromScheduling = (false, s) := by
  simp [isBlockedFromScheduling, pending]

/-- The main loop enters a deferred script, whatever is paused. -/
theorem Deferred.plays {program : Script} (waits : s.Deferred program) (deltaFrame60 : Nat) :
    (s.playbackCalc deltaFrame60).tick.AtEntryPoint program := by
  set u : Sched := { s with control := .ctxEnter deltaFrame60 } with hu
  have resumed : s.playbackCalc deltaFrame60 = u := by
    rw [playbackCalc, abortStackImpl_of_quiet waits.isAbortReq, playbackResume,
      if_neg (by simp [waits.control]), if_neg (by simp [waits.isPlaybackBeginPending])]
  have top : u.getSP = s.moduleStack 0 := by rw [getSP, hu, waits.moduleStackIndex]
  have valid : u.isValidForExecution = true := by
    refine isValidForExecution_iff.mpr ⟨waits.isAbortReq, ?_, .inr ?_⟩
    · rw [top]
      exact waits.asModule
    · rw [top, waits.asCtx]
  have charged := sameScripts_calcConsumeFrametime u deltaFrame60
  have unblocked := isBlockedFromScheduling_of_pending (s := u) waits.isPlaybackBeginPending
  have ticked : u.tick = u.calcCtxEnter deltaFrame60 := rfl
  rw [resumed, ticked, calcCtxEnter, if_neg (by simp [valid]), unblocked]
  simp only
  generalize u.calcConsumeFrametime_queryIsInputExhausted deltaFrame60 = answer at charged ⊢
  obtain ⟨isInputExhausted, v⟩ := answer
  simp only at charged ⊢
  have pending : v.isPlaybackBeginPending = true :=
    charged.isPlaybackBeginPending.trans waits.isPlaybackBeginPending
  have index : v.moduleStackIndex = 0 := charged.moduleStackIndex.trans waits.moduleStackIndex
  have ctx : (v.moduleStack 0).asCtx = ⟨.prepared, false, false, program⟩ :=
    (charged.asCtx 0).trans waits.asCtx
  have running : v.running = [] := charged.running.trans waits.running
  rw [if_neg Bool.false_ne_true, if_neg (by simp [pending])]
  constructor
  · rfl
  · simp [beginExecute, index, running]
  · simp [beginExecute, modifyCtx, index, ctx]
  · exact charged.isAbortReq.trans waits.isAbortReq
  · exact ⟨v.events, by simp [beginExecute, index]⟩

theorem Idle.plays (idle : s.Idle) (source : PushSource) (answers : ScriptSource)
    (program : Script) (nextDelta60 : Nat) (gets : s.getsModule source.target answers = true)
    (hasEntryPoint : answers.hasEntryPoint = true) :
    ((s.pushFrom source answers program).playbackCalc nextDelta60).tick.AtEntryPoint program := by
  have pushed := s.pushed_pushFrom answers program source
  generalize s.pushFrom source answers program = u at pushed ⊢
  cases pushed with
  | refused _ without => exact absurd (without.symm.trans gets) (by decide)
  | entered _ provided =>
    rw [hasEntryPoint]
    exact ((idle.provided provided).deferred _ _ _).plays _

/-- A slot refers to a module that was discarded. -/
def Stale (s : Sched) : Prop :=
  ∃ i < MAX_MODULE_STACK_DEPTH, ∃ m, (s.moduleStack i).asModule = some m ∧
    m ∈ s.discards.map Discard.asModule

/-- Clearing a slot discards its module and crashes when that is not the first time. -/
theorem clearSlot_discarded (s : Sched) (i m : Nat) :
    (m ∈ (s.clearSlot i).discards.map Discard.asModule ↔
      m ∈ s.discards.map Discard.asModule ∨ (s.moduleStack i).asModule = some m) ∧
    ((s.clearSlot i).control = .crash ↔ s.control = .crash ∨
      ∃ m, (s.moduleStack i).asModule = some m ∧ m ∈ s.discards.map Discard.asModule) := by
  have cleared := sameModules_modifyCtx (s := s) i fun c => c.abort.unprepare
  have stands : (s.modifyCtx i fun c => c.abort.unprepare).control = s.control := rfl
  simp only [clearSlot]
  generalize s.modifyCtx i (fun c => c.abort.unprepare) = u at cleared stands ⊢
  rw [cleared.asModule]
  cases holds : (s.moduleStack i).asModule with
  | none => simp [cleared.discards, stands]
  | some n =>
    simp only [setModule_discards, setModule_control, discardModule, cleared.discards, stands,
      List.map_append, List.mem_append, List.map_cons, List.map_nil, List.mem_singleton,
      Option.some.injEq, exists_eq_left']
    refine ⟨by rw [eq_comm (a := m)], ?_⟩
    split
    next gone => exact iff_of_true rfl (.inr gone)
    next first => exact ⟨.inl, fun either => either.resolve_right first⟩

/-- What the abort loop has discarded up to slot `n`, and when it crashes: at the first slot
whose module was discarded before, by the loop itself or earlier. -/
theorem clearSlots_discarded (s : Sched) (n : Nat) :
    (∀ m, m ∈ ((List.range n).foldl (fun s i => s.clearSlot i) s).discards.map Discard.asModule ↔
      m ∈ s.discards.map Discard.asModule ∨ ∃ i < n, (s.moduleStack i).asModule = some m) ∧
    (((List.range n).foldl (fun s i => s.clearSlot i) s).control = .crash ↔
      s.control = .crash ∨ ∃ j < n, ∃ m, (s.moduleStack j).asModule = some m ∧
        (m ∈ s.discards.map Discard.asModule ∨ ∃ i < j, (s.moduleStack i).asModule = some m)) := by
  induction n with
  | zero => simp
  | succ n ih =>
    obtain ⟨gone, crashed⟩ := ih
    have slot : (((List.range n).foldl (fun s i => s.clearSlot i) s).moduleStack n).asModule =
        (s.moduleStack n).asModule := by
      obtain ⟨modules, discards, control, cleared⟩ := clearSlots s n
      simp [cleared]
    rw [List.range_succ, List.foldl_append, List.foldl_cons, List.foldl_nil]
    refine ⟨fun m => ?_, ?_⟩
    · rw [(clearSlot_discarded _ n m).1, gone, slot, Nat.exists_lt_succ_right, or_assoc]
    · rw [(clearSlot_discarded _ n 0).2, crashed, slot, Nat.exists_lt_succ_right, or_assoc]
      simp only [gone]

/-- Recovering from an abort crashes exactly when two slots share a module or one has a module
that was discarded before. -/
theorem abortStackImpl_crash (aborting : s.isAbortReq = true) (stands : s.control = .idle) :
    s.abortStackImpl.control = .crash ↔ s.Shared ∨ s.Stale := by
  have discarded := (clearSlots_discarded { s with isAbortReq := false } MAX_MODULE_STACK_DEPTH).2
  unfold abortStackImpl
  rw [if_neg (by simp [aborting])]
  refine discarded.trans ?_
  simp only [stands, reduceCtorEq, false_or]
  constructor
  · rintro ⟨j, inside, m, second, gone | ⟨i, less, first⟩⟩
    · exact .inr ⟨j, inside, m, second, gone⟩
    · exact .inl ⟨i, j, m, less, inside, first, second⟩
  · rintro (⟨i, j, m, less, inside, first, second⟩ | ⟨j, inside, m, holds, gone⟩)
    · exact ⟨j, inside, m, second, .inr ⟨i, less, first⟩⟩
    · exact ⟨j, inside, m, holds, .inl gone⟩

/-- What `abortStackImpl` does restore, from any state between two frames. -/
theorem abortStackImpl_idle (inv : s.StackInv) (engine : s.EngineOk) (stands : s.control = .idle)
    (empty : s.running = []) (aborting : s.isAbortReq = true)
    (nothing : s.isPlaybackBeginPending = false) (apart : ¬s.Shared) (fresh : ¬s.Stale) :
    s.abortStackImpl.Idle := by
  have goesOn : s.abortStackImpl.control = .idle := by
    rcases s.abortStackImpl_control with same | crashed
    · exact same.trans stands
    · exact absurd ((abortStackImpl_crash aborting stands).mp crashed) (not_or.mpr ⟨apart, fresh⟩)
  have stack := (inv.abortStackImpl empty).1
  have books := engine.abortStackImpl
  obtain ⟨modules, discards, control, cleared⟩ := abortStackImpl_spec aborting
  rw [cleared] at goesOn stack books ⊢
  refine ⟨goesOn, empty, rfl, fun i inside => ?_, fun i inside => ?_, rfl, nothing, rfl, stack,
    books⟩
  · simp only [if_pos inside, clearedSlot]
  · simp only [if_pos inside, clearedSlot]
    exact ScriptContext.abort_unprepare _ (inv.idle empty i)

/-- An abort is recovered from exactly when no deferred script was pending, no two slots share
a module, and no slot has a module that was discarded before. -/
theorem recovers_iff (reached : scheduler.Reachable s) (stands : s.control = .idle)
    (aborting : s.isAbortReq = true) (deltaFrame60 : Nat) :
    s.Recovers deltaFrame60 ↔
      s.isPlaybackBeginPending = false ∧ ¬s.Shared ∧ ¬s.Stale := by
  constructor
  · intro recovers
    have restored := recovers.idle.isPlaybackBeginPending
    have whole : s.abortStackImpl.control ≠ .crash := by simp [recovers.idle.control]
    rw [Ne, abortStackImpl_crash aborting stands, not_or] at whole
    obtain ⟨modules, discards, control, cleared⟩ := abortStackImpl_spec aborting
    rw [cleared] at restored
    exact ⟨restored, whole⟩
  · rintro ⟨nothing, apart, fresh⟩
    obtain ⟨inv, empty⟩ := reachable_idle reached stands
    have idle := abortStackImpl_idle inv (engineOk_reachable reached) stands empty aborting nothing
      apart fresh
    have calm : (s.playbackCalc deltaFrame60).Idle := by
      rw [playbackCalc, idle.playbackResume]
      exact idle
    refine ⟨idle, fun t later => (calm.withoutPush later).isAbortReq, ?_⟩
    intro t later _ source answers program nextDelta60 gets hasEntryPoint
    exact (calm.withoutPush later).plays source answers program nextDelta60 gets hasEntryPoint

/-- A websocket script and, in the same frame, a hotkey for a file that does not exist. -/
def pushThenMissingFile : List Action :=
  [.push (.websocket "a.as" true) ⟨true, false, true, true⟩ .done,
   .push (.hotkeyFile "sdcard:/b.as") ⟨false, false, true, true⟩ .done]

/-- A script that executes its own file, and a hotkey for a missing file while both calls
wait for input. -/
def selfCallThenMissingFile : List Action :=
  [.push (.hotkeyFile "sdcard:/a.as") ⟨true, false, true, true⟩
     (.exec ⟨.awaitExecFile "sdcard:/a.as", ⟨true, false, true, true⟩, true, true⟩
       (.call (.input 2 1#64 ⟨0, 0⟩ ⟨0, 0⟩) .done) .done),
   .frame 2, .tick, .tick, .tick, .tick, .tick, .tick, .tick, .tick,
   .push (.hotkeyFile "sdcard:/b.as") ⟨false, false, true, true⟩ .done]

def afterMissingFile : Sched :=
  System.performAll Sched.perform pushThenMissingFile .init

def afterSelfCall : Sched :=
  System.performAll Sched.perform selfCallThenMissingFile .init

/-- The flag of a pushed script outlives the script; a module in two slots is discarded twice. -/
theorem afterMissingFile_not_recovers :
    (scheduler.Reachable afterMissingFile ∧ afterMissingFile.control = .idle ∧
      afterMissingFile.isAbortReq = true ∧ ¬afterMissingFile.Recovers 2) ∧
    (scheduler.Reachable afterSelfCall ∧ afterSelfCall.control = .idle ∧
      afterSelfCall.isAbortReq = true ∧ afterSelfCall.isPlaybackBeginPending = false ∧
      ¬afterSelfCall.Recovers 2) := by
  refine ⟨⟨reachable_performAll (by decide +kernel), by decide +kernel, by decide +kernel,
    fun recovers => ?_⟩, ⟨reachable_performAll (by decide +kernel), by decide +kernel,
    by decide +kernel, by decide +kernel, fun recovers => ?_⟩⟩
  · exact absurd recovers.idle.isPlaybackBeginPending (by decide +kernel)
  · exact absurd recovers.idle.control (by decide +kernel)

theorem recovers_missingFile :
    (System.performAll Sched.perform (pushThenMissingFile.drop 1) .init).Recovers 2 := by
  have empty : ∀ i < MAX_MODULE_STACK_DEPTH, ((System.performAll Sched.perform
      (pushThenMissingFile.drop 1) .init).moduleStack i).asModule = none := by decide +kernel
  refine (recovers_iff (reachable_performAll (by decide +kernel)) (by decide +kernel)
    (by decide +kernel) 2).mpr ⟨by decide +kernel, ?_, ?_⟩
  · rintro ⟨i, j, m, less, inside, first, second⟩
    exact nomatch (empty j inside).symm.trans second
  · rintro ⟨i, inside, m, holds, gone⟩
    exact nomatch (empty i inside).symm.trans holds

/-- Between frames an abort is requested, within a frame the empty slot 0 is looked at, and
all the while a script that is gone is pending. -/
def Wedged (s : Sched) : Prop :=
  s.isPlaybackBeginPending = true ∧ s.running = [] ∧
    match s.control with
    | .idle => s.isAbortReq = true
    | .ctxEnter _ => s.getSP.asModule = none
    | .boundary => False
    | .run => False
    | .fault => True
    | .crash => True

/-- From `s` to `t` there were abort requests only. -/
def OnlyAborts (s t : Sched) : Prop :=
  ∃ reasons : List String, t.events = s.events ++ reasons.map .abortReq

theorem OnlyAborts.of_eq (same : t.events = s.events) : OnlyAborts s t := ⟨[], by simp [same]⟩

theorem onlyAborts_abortStackReq (reason : String) : OnlyAborts s (s.abortStackReq reason) :=
  ⟨[reason], rfl⟩

theorem OnlyAborts.trans {u : Sched} (first : OnlyAborts s t) (second : OnlyAborts t u) :
    OnlyAborts s u := by
  obtain ⟨before, first⟩ := first
  obtain ⟨after, second⟩ := second
  exact ⟨before ++ after, by rw [second, first, List.map_append, List.append_assoc]⟩

/-- Between two frames: an abort is requested, and a script is pending. -/
structure Jammed (s : Sched) : Prop where
  isPlaybackBeginPending : s.isPlaybackBeginPending = true
  running : s.running = []
  control : s.control = .idle
  isAbortReq : s.isAbortReq = true

theorem Jammed.wedged (jammed : s.Jammed) : s.Wedged := by
  refine ⟨jammed.isPlaybackBeginPending, jammed.running, ?_⟩
  simpa only [jammed.control] using jammed.isAbortReq

theorem Jammed.abortStackReq (jammed : s.Jammed) (reason : String) :
    (s.abortStackReq reason).Jammed :=
  ⟨jammed.isPlaybackBeginPending, jammed.running, jammed.control, rfl⟩

theorem Jammed.enterSlot (jammed : s.Jammed) (k m : Nat) (hasEntryPoint : Bool)
    (program : Script) (blockOnDebugPause : Bool) :
    (s.enterSlot k m hasEntryPoint program false blockOnDebugPause).Jammed ∧
      OnlyAborts s (s.enterSlot k m hasEntryPoint program false blockOnDebugPause) := by
  obtain ⟨pending, empty, stands, aborting⟩ := jammed
  simp only [Sched.enterSlot]
  split
  · exact ⟨⟨pending, empty, stands, rfl⟩, onlyAborts_abortStackReq _⟩
  · split
    · exact ⟨⟨pending, empty, stands, rfl⟩,
        ["[tas::schedule::pushExecModuleEntryPoint] cant resolve entrypoint"], rfl⟩
    · exact ⟨⟨rfl, empty, stands, aborting⟩, .of_eq rfl⟩

/-- A push from outside adds to the pile, or falls off the stack. -/
theorem Jammed.pushExecModuleEntryPoint (jammed : s.Jammed) (m : Nat) (hasEntryPoint : Bool)
    (program : Script) (blockOnDebugPause : Bool) :
    (s.pushExecModuleEntryPoint m hasEntryPoint program false blockOnDebugPause).Wedged ∧
      OnlyAborts s (s.pushExecModuleEntryPoint m hasEntryPoint program false blockOnDebugPause) := by
  have suspended : (if s.getSP.asCtx.status = .active then s.trySuspendCtx else s).Jammed ∧
      (if s.getSP.asCtx.status = .active then s.trySuspendCtx else s).events = s.events := by
    obtain ⟨pending, empty, stands, aborting⟩ := jammed
    split <;> exact ⟨⟨pending, empty, stands, aborting⟩, rfl⟩
  simp only [Sched.pushExecModuleEntryPoint]
  generalize (if s.getSP.asCtx.status = .active then s.trySuspendCtx else s) = u at suspended ⊢
  obtain ⟨jammedU, events⟩ := suspended
  obtain ⟨pending, empty, stands, aborting⟩ := jammedU
  split
  · have entered := Jammed.enterSlot (s := u.modifySlot u.moduleStackIndex ModuleStackFrame.resetState)
      ⟨pending, empty, stands, aborting⟩ u.moduleStackIndex m hasEntryPoint program blockOnDebugPause
    exact ⟨entered.1.wedged, (OnlyAborts.of_eq events).trans entered.2⟩
  · split
    · have entered := Jammed.enterSlot (s := u.inheritOnPush u.moduleStackIndex)
        ⟨pending, empty, stands, aborting⟩ (u.moduleStackIndex + 1) m hasEntryPoint program
        blockOnDebugPause
      exact ⟨entered.1.wedged, (OnlyAborts.of_eq events).trans entered.2⟩
    · exact ⟨⟨pending, empty, trivial⟩, .of_eq events⟩

/-- A frame throws away what was pushed, and looks for the pending script in slot 0. -/
theorem Jammed.playbackCalc (jammed : s.Jammed) (deltaFrame60 : Nat) :
    (s.playbackCalc deltaFrame60).Wedged ∧ OnlyAborts s (s.playbackCalc deltaFrame60) := by
  have control := s.abortStackImpl_control
  obtain ⟨modules, discards, control', cleared⟩ := abortStackImpl_spec jammed.isAbortReq
  rw [Sched.playbackCalc, Sched.playbackResume]
  rw [cleared] at control ⊢
  by_cases crashed : control' = .crash
  · rw [if_pos crashed]
    refine ⟨⟨jammed.isPlaybackBeginPending, jammed.running, ?_⟩, .of_eq rfl⟩
    simp only [crashed]
  · rw [if_neg crashed, if_neg (by simp [jammed.isPlaybackBeginPending])]
    exact ⟨⟨jammed.isPlaybackBeginPending, jammed.running, rfl⟩, .of_eq rfl⟩

/-- No push, frame or pause gets the scheduler out of it, and no script is executed. -/
theorem Wedged.step {a : Action} (wedged : s.Wedged) (taken : Step s a t) :
    t.Wedged ∧ OnlyAborts s t := by
  obtain ⟨pending, empty, place⟩ := wedged
  have jammed (stands : s.control = .idle) : s.Jammed :=
    ⟨pending, empty, stands, by simpa only [stands] using place⟩
  cases taken with
  | tick notIdle runs =>
    cases stands : s.control with
    | idle => exact absurd stands notIdle
    | ctxEnter d =>
      simp only [stands] at place
      have invalid : s.isValidForExecution = false := by
        by_contra valid
        exact (isValidForExecution_iff.mp (by simpa using valid)).2.1 place
      have aborts : s.tick = (s.abortStackReq "[tas::schedule::calcCtx] no playable ctx").calcCtxReturn
          true := by
        simp only [tick, stands, calcCtxEnter, if_pos invalid]
      have returned : s.tick.Jammed := by
        rw [aborts]
        exact ⟨pending, empty, if_pos empty, rfl⟩
      exact ⟨returned.wedged, by rw [aborts]; exact onlyAborts_abortStackReq _⟩
    | boundary => simp only [stands] at place
    | run => simp only [stands] at place
    | fault => exact absurd stands runs.1
    | crash => exact absurd stands runs.2
  | push source answers program stands =>
    have pushed := s.pushed_pushFrom answers program source
    generalize s.pushFrom source answers program = u at pushed ⊢
    cases pushed with
    | refused reason _ =>
      exact ⟨((jammed stands).abortStackReq reason).wedged, onlyAborts_abortStackReq reason⟩
    | entered _ provided =>
      cases provided with
      | reused _ => exact (jammed stands).pushExecModuleEntryPoint _ _ _ _
      | built _ =>
        have still : Jammed { s with
            modules := s.modules ++ [(source.target.name, s.builtModules)]
            builtModules := s.builtModules + 1 } :=
          ⟨pending, empty, stands, (jammed stands).isAbortReq⟩
        exact still.pushExecModuleEntryPoint _ _ _ _
  | frame deltaFrame60 stands => exact (jammed stands).playbackCalc deltaFrame60
  | pauses counts targets _ => exact ⟨⟨pending, empty, place⟩, .of_eq rfl⟩

/-- After an abort with a deferred script pending, nothing is ever executed again. -/
theorem wedged_forever (reached : scheduler.Reachable s) (stands : s.control = .idle)
    (aborting : s.isAbortReq = true) (pending : s.isPlaybackBeginPending = true)
    (later : (System.mk (· = s) Step).Reachable t) : t.Wedged ∧ OnlyAborts s t := by
  have jammed : s.Jammed := ⟨pending, (reachable_idle reached stands).2, stands, aborting⟩
  refine @System.Reachable.invariant _ _ _ (fun t => t.Wedged ∧ OnlyAborts s t)
    (fun u start => ?_) (fun t a u before taken => ?_) _ later
  · have same : u = s := start
    rw [same]
    exact ⟨jammed.wedged, .of_eq rfl⟩
  · have next := before.1.step taken
    exact ⟨next.1, before.2.trans next.2⟩

end Sched

end LotusKit.Schedule

import LotusKit.Schedule.Invariant
import LotusKit.Schedule.Push

/-! The stack invariant holds of every reachable state: pushes, statements and frames keep
it. -/

namespace LotusKit.Schedule
open LotusKit.Lib.Transition

namespace Sched
variable {s t : Sched}

theorem StackInv.idle (inv : s.StackInv) (empty : s.running = []) (i : Nat) :
    (s.moduleStack i).asCtx.status ≠ .active := by
  have active := inv.active i
  rw [empty] at active
  exact fun is => List.not_mem_nil (active.mp is)

/-- The caller of a push: the main loop, or the script on top. -/
def AtPush (s : Sched) : Prop :=
  (s.control = .idle ∧ s.running = []) ∨ (s.control = .boundary ∧ s.running ≠ [])

theorem placed_of_waiting (caller : s.AtPush) (waiting : s.Waiting s.running) : s.Placed := by
  rcases caller with ⟨stands, empty⟩ | ⟨stands, nonempty⟩
  · simpa only [Placed, stands] using empty
  · obtain ⟨sp, rest, running⟩ := List.exists_cons_of_ne_nil nonempty
    rw [running] at waiting
    have top := waiting sp List.mem_cons_self
    simp only [Placed, stands]
    exact ⟨sp, rest, running, waiting.tail, fun quiet => ⟨top.2 quiet, fun _ => top.1⟩⟩

theorem inv_abortStackReq (inv : s.StackInv) (caller : s.AtPush) (reason : String) :
    (s.abortStackReq reason).Inv :=
  .inr ⟨(inv.abortStackReq reason).1, placed_of_waiting caller (inv.abortStackReq reason).2⟩

/-- Preparing a context changes no running one. -/
theorem prepare_of_active {c : ScriptContext} (active : c.status = .active) (program : Script) :
    c.prepare program = c := by
  simp [ScriptContext.prepare, active]

theorem StackInv.prepare (inv : s.StackInv) (i : Nat) (program : Script) :
    (s.modifyCtx i (ScriptContext.prepare program)).StackInv := by
  refine inv.modifyCtx _ _ (ScriptContext.prepare_active _ _) fun member aborting => ?_
  rw [prepare_of_active ((inv.active i).mpr member)]
  exact inv.stopping aborting i member

theorem Waiting.prepare (waiting : s.Waiting s.running) (inv : s.StackInv) (i : Nat)
    (program : Script) : (s.modifyCtx i (ScriptContext.prepare program)).Waiting s.running := by
  intro j member
  by_cases same : j = i
  · subst same
    have kept := prepare_of_active ((inv.active j).mpr member) program
    simpa [Sched.modifyCtx, kept] using waiting j member
  · simpa [Sched.modifyCtx, same] using waiting j member

/-- The top moves up to a slot that is given a module. -/
theorem StackInv.raise (inv : s.StackInv) (waiting : s.Waiting s.running) {k : Nat}
    (inside : k < MAX_MODULE_STACK_DEPTH) (beyond : s.moduleStackIndex ≤ k) (m : Option Nat) :
    ({ s.setModule k m with moduleStackIndex := k }).StackInv ∧
      ({ s.setModule k m with moduleStackIndex := k }).Waiting s.running := by
  have ctx (i : Nat) : ((s.setModule k m).moduleStack i).asCtx = (s.moduleStack i).asCtx :=
    asCtx_setModule
  refine ⟨⟨inside, fun i => ?_, inv.within, inv.nested, fun quiet i above inside => ?_,
    fun aborting i member => ?_⟩, fun i member => ⟨?_, fun quiet => ?_⟩⟩
  · show ((s.setModule k m).moduleStack i).asCtx.status = .active ↔ i ∈ s.running
    rw [ctx]
    exact inv.active i
  · have strictly : k < i := above
    have different : i ≠ k := by omega
    simpa [setModule, different] using inv.above quiet i (by omega) inside
  · show ((s.setModule k m).moduleStack i).asCtx.doSuspend = true ∧
      ((s.setModule k m).moduleStack i).asCtx.doAbort = true
    rw [ctx]
    exact inv.stopping aborting i member
  · show ((s.setModule k m).moduleStack i).asCtx.doSuspend = true
    rw [ctx]
    exact (waiting i member).1
  · exact Nat.le_trans ((waiting i member).2 quiet) beyond

/-- The rest of a push, once the caller waits. -/
theorem inv_enterSlot (inv : s.StackInv) (waiting : s.Waiting s.running) (caller : s.AtPush)
    {k : Nat} (inside : k < MAX_MODULE_STACK_DEPTH) (beyond : s.moduleStackIndex ≤ k) (m : Nat)
    (hasEntryPoint : Bool) (program : Script) (doImmediateExecute blockOnDebugPause : Bool) :
    (s.enterSlot k m hasEntryPoint program doImmediateExecute blockOnDebugPause).Inv := by
  simp only [enterSlot]
  split
  · exact inv_abortStackReq inv caller _
  · have same := (s.setModule k (some m)).sameScripts_modifyState k (fun _ => inside) fun state =>
      { state with blockOnDebugPause := blockOnDebugPause }
    generalize (s.setModule k (some m)).modifyState k _ = u at same ⊢
    have active (i : Nat) : (u.moduleStack i).asCtx.status = .active ↔ i ∈ u.running := by
      rw [same.asCtx, same.running, asCtx_setModule]
      exact inv.active i
    have atPush : u.AtPush := by
      rw [AtPush, same.control, same.running]
      exact caller
    split
    · have stops := stackInv_abortStackReq (s := u) (same.moduleStackIndex ▸ inv.index_lt)
        active (same.running ▸ inv.within) (same.running ▸ inv.nested)
        "[tas::schedule::pushExecModuleEntryPoint] cant resolve entrypoint"
      exact .inr ⟨stops.1, placed_of_waiting atPush stops.2⟩
    · have raised := inv.raise waiting inside beyond (some m)
      have same' : SameScripts { s.setModule k (some m) with moduleStackIndex := k }
          { u with moduleStackIndex := k } :=
        ⟨same.1, same.2, same.3, same.4, rfl, same.6, same.7, same.8, same.9, same.10,
          fun _ => same.outside inv.index_lt⟩
      have inv' := raised.1.congr same'
      have waiting' := Waiting.running_congr raised.2 same'
      have prepared := inv'.prepare k program
      have waits := waiting'.prepare inv' k program
      split
      · exact .inr ⟨⟨prepared.index_lt, prepared.active, prepared.within, prepared.nested,
          prepared.above, prepared.stopping⟩, waits⟩
      · exact .inr ⟨⟨prepared.index_lt, prepared.active, prepared.within, prepared.nested,
          prepared.above, prepared.stopping⟩, placed_of_waiting atPush waits⟩

theorem AtPush.congr (caller : s.AtPush) (same : SameScripts s t) : t.AtPush := by
  rw [AtPush, same.control, same.running]
  exact caller

/-- A push comes from the main loop or from the script on top. -/
structure PushReady (s : Sched) : Prop where
  stack : s.StackInv
  caller : (s.control = .idle ∧ s.running = []) ∨
    (s.control = .boundary ∧ ∃ rest, s.running = s.moduleStackIndex :: rest ∧ s.Waiting rest)

theorem PushReady.atPush (ready : s.PushReady) : s.AtPush := by
  rcases ready.caller with idle | ⟨stands, rest, running, -⟩
  · exact .inl idle
  · exact .inr ⟨stands, by simp [running]⟩

/-- The first statement of `pushExecModuleEntryPoint` makes the caller wait. -/
theorem PushReady.suspend (ready : s.PushReady) :
    let u := if s.getSP.asCtx.status = .active then s.trySuspendCtx else s
    u.StackInv ∧ u.Waiting u.running ∧ u.AtPush := by
  rcases ready.caller with ⟨stands, empty⟩ | ⟨stands, rest, running, waiting⟩
  · have inactive := ready.stack.idle empty s.moduleStackIndex
    simp only [getSP, if_neg inactive]
    refine ⟨ready.stack, ?_, .inl ⟨stands, empty⟩⟩
    rw [empty]
    exact fun i member => absurd member List.not_mem_nil
  · have active := (ready.stack.active s.moduleStackIndex).mpr (by simp [running])
    simp only [getSP, if_pos active]
    refine ⟨ready.stack.trySuspendCtx, fun i member => ?_, .inr ⟨stands, ?_⟩⟩
    · rcases List.mem_cons.mp (running ▸ member : i ∈ s.moduleStackIndex :: rest) with same | below
      · subst same
        exact ⟨by simp [trySuspendCtx, modifyCtx, ScriptContext.suspend], fun _ => Nat.le_refl _⟩
      · exact waiting.trySuspendCtx i below
    · simp [trySuspendCtx, running]

theorem inv_pushExecModuleEntryPoint (ready : s.PushReady) (m : Nat) (hasEntryPoint : Bool)
    (program : Script) (doImmediateExecute blockOnDebugPause : Bool) :
    (s.pushExecModuleEntryPoint m hasEntryPoint program doImmediateExecute
      blockOnDebugPause).Inv := by
  obtain ⟨inv, waiting, caller⟩ := ready.suspend
  simp only [pushExecModuleEntryPoint]
  generalize (if s.getSP.asCtx.status = .active then s.trySuspendCtx else s) = u
    at inv waiting caller ⊢
  split
  · have same : SameScripts u (u.modifySlot u.moduleStackIndex ModuleStackFrame.resetState) :=
      u.sameScripts_modifyTop fun state =>
        (ModuleStackFrame.resetState { u.getSP with state := state }).state
    exact inv_enterSlot (inv.congr same) (waiting.running_congr same) (caller.congr same)
      inv.index_lt (Nat.le_refl _) m hasEntryPoint program doImmediateExecute blockOnDebugPause
  · split
    next inside =>
      have same : SameScripts u (u.inheritOnPush u.moduleStackIndex) :=
        u.sameScripts_modifyState (u.moduleStackIndex + 1) (fun _ => inside) fun state =>
          { (ModuleStackFrame.resetState { u.getSP with state := state }).state with
            input := u.getSP.state.input
            playbackInputPassthroughMode := u.getSP.state.playbackInputPassthroughMode }
      exact inv_enterSlot (inv.congr same) (waiting.running_congr same) (caller.congr same)
        inside (Nat.le_succ _) m hasEntryPoint program doImmediateExecute blockOnDebugPause
    next => exact .inl rfl

theorem PushReady.provided (ready : s.PushReady) {name : String} {m : Nat}
    (provided : Provided s name m t) : t.PushReady := by
  cases provided with
  | reused _ => exact ready
  | built _ =>
    obtain ⟨inv, caller⟩ := ready
    exact ⟨⟨inv.index_lt, inv.active, inv.within, inv.nested, inv.above, inv.stopping⟩, caller⟩

theorem inv_pushed (ready : s.PushReady) {target : PushTarget} {answers : ScriptSource}
    {program : Script} {doImmediateExecute blockOnDebugPause : Bool}
    (pushed : Pushed s target answers program doImmediateExecute blockOnDebugPause t) : t.Inv := by
  cases pushed with
  | refused reason _ => exact inv_abortStackReq ready.stack ready.atPush reason
  | entered _ provided => exact inv_pushExecModuleEntryPoint (ready.provided provided) _ _ _ _ _

/-- A script on top that stands between two statements. -/
theorem placed_of_top (stands : s.control = .boundary) {rest : List Nat}
    (running : s.running = s.moduleStackIndex :: rest) (waiting : s.Waiting rest) : s.Placed := by
  simp only [Placed, stands]
  exact ⟨_, rest, running, waiting, fun _ => ⟨Nat.le_refl _, fun less => absurd less (by omega)⟩⟩

/-- A bind that pushes nothing returns to the script that called it. -/
theorem inv_callBind (inv : s.StackInv) (stands : s.control = .boundary) {rest : List Nat}
    (running : s.running = s.moduleStackIndex :: rest) (waiting : s.Waiting rest) (bind : Bind) :
    (s.callBind bind).Inv := by
  rcases s.callBind_cases bind with ⟨reason, -, aborted⟩ | same | same
  · rw [aborted]
    exact inv_abortStackReq inv (.inr ⟨stands, by simp [running]⟩) reason
  · refine .inr ⟨inv.congr same, placed_of_top ?_ ?_ (waiting.congr same)⟩
    · rw [same.control, stands]
    · rw [same.running, same.moduleStackIndex, running]
  · refine .inr ⟨inv.trySuspendCtx.congr same, placed_of_top ?_ ?_
      (waiting.trySuspendCtx.congr same)⟩
    · rw [same.control]
      exact stands
    · rw [same.running, same.moduleStackIndex]
      exact running

theorem StackInv.setProgram (inv : s.StackInv) (sp : Nat) (rest : Script) :
    (s.setProgram sp rest).StackInv := by
  have moved := inv.modifyCtx sp (fun c => { c with program := rest }) Iff.rfl
    fun member aborting => inv.stopping aborting sp member
  exact ⟨moved.index_lt, moved.active, moved.within, moved.nested, moved.above, moved.stopping⟩

theorem inv_runStatement (inv : s.StackInv) {rest : List Nat}
    (running : s.running = s.moduleStackIndex :: rest) (waiting : s.Waiting rest) :
    (s.runStatement s.moduleStackIndex).Inv := by
  have kept (next : Script) := inv.setProgram s.moduleStackIndex next
  have nested := inv.nested
  rw [running] at nested
  have waits (next : Script) : (s.setProgram s.moduleStackIndex next).Waiting rest :=
    waiting.modifyCtx (fun c => { c with program := next }) (not_mem_of_nested nested)
  unfold runStatement
  cases (s.moduleStack s.moduleStackIndex).asCtx.program with
  | done => exact inv_executeReturn inv running waiting .finished (by decide) fun _ => rfl
  | throw => exact inv_executeReturn inv running waiting .exception (by decide) nofun
  | call bind next => exact inv_callBind (kept next) rfl running (waits next) bind
  | exec e child next =>
    exact inv_pushed ⟨kept next, .inr ⟨rfl, rest, running, waits next⟩⟩ (pushed_pushExec _ e child)

theorem inv_tick (inv : s.Inv) : s.tick.Inv := by
  rcases inv with broken | ⟨inv, placed⟩
  · exact .inl (by simp [tick, broken])
  · cases stands : s.control with
    | idle =>
      simp only [tick, stands]
      exact .inr ⟨inv, placed⟩
    | ctxEnter d =>
      simp only [Placed, stands] at placed
      simp only [tick, stands]
      exact inv_calcCtxEnter inv placed d
    | boundary =>
      simp only [Placed, stands] at placed
      obtain ⟨sp, rest, running, waiting, top⟩ := placed
      simp only [tick, stands, running]
      exact inv_checkFlags inv running waiting top
    | run =>
      simp only [Placed, stands] at placed
      obtain ⟨rest, running, waiting, -⟩ := placed
      simp only [tick, stands, running]
      exact inv_runStatement inv running waiting
    | fault => exact .inl (by simp [tick, stands])
    | crash =>
      simp only [tick, stands]
      exact .inr ⟨inv, placed⟩

/-- What `abortStackImpl` leaves of a slot. -/
def clearedSlot (frame : ModuleStackFrame) : ModuleStackFrame :=
  { frame with asModule := none, asCtx := frame.asCtx.abort.unprepare }

theorem modifyCtx_setModule (s : Sched) (i : Nat) :
    (s.modifyCtx i fun c => c.abort.unprepare).setModule i none = s.modifySlot i clearedSlot := by
  simp [modifyCtx, setModule, modifySlot, clearedSlot]

theorem clearSlot_spec (s : Sched) (i : Nat) : ∃ modules discards control,
    s.clearSlot i =
      { s.modifySlot i clearedSlot with
        modules := modules
        discards := discards
        control := control } := by
  rw [← modifyCtx_setModule]
  simp only [clearSlot]
  split
  next empty =>
    refine ⟨s.modules, s.discards, s.control, ?_⟩
    have slot : (fun frame : ModuleStackFrame => { frame with asModule := none })
        ((s.modifyCtx i fun c => c.abort.unprepare).moduleStack i) =
        (s.modifyCtx i fun c => c.abort.unprepare).moduleStack i := by
      rw [← empty]
    simp only [setModule, modifySlot, slot, Function.update_eq_self]
    rfl
  next m _ => exact ⟨_, _, _, rfl⟩

/-- The loop of `abortStackImpl` clears the slots it went through and nothing else. -/
theorem clearSlots (s : Sched) (n : Nat) : ∃ modules discards control,
    (List.range n).foldl (fun s i => s.clearSlot i) s =
      { s with
        moduleStack := fun i => if i < n then clearedSlot (s.moduleStack i) else s.moduleStack i
        modules := modules
        discards := discards
        control := control } := by
  induction n with
  | zero => exact ⟨s.modules, s.discards, s.control, rfl⟩
  | succ n ih =>
    obtain ⟨modules, discards, control, cleared⟩ := ih
    rw [List.range_succ, List.foldl_append, cleared, List.foldl_cons, List.foldl_nil]
    obtain ⟨modules', discards', control', next⟩ := clearSlot_spec
      { s with
        moduleStack := fun i => if i < n then clearedSlot (s.moduleStack i) else s.moduleStack i
        modules := modules
        discards := discards
        control := control } n
    refine ⟨modules', discards', control', next.trans ?_⟩
    have slots : Function.update
        (fun i => if i < n then clearedSlot (s.moduleStack i) else s.moduleStack i) n
        (clearedSlot (s.moduleStack n)) =
        fun i => if i < n + 1 then clearedSlot (s.moduleStack i) else s.moduleStack i := by
      funext i
      rcases Nat.lt_trichotomy i n with before | same | after
      · simp [Nat.ne_of_lt before, before, Nat.lt_succ_of_lt before]
      · simp [same]
      · simp [Nat.ne_of_gt after, Nat.not_lt_of_gt after, Nat.not_lt_of_ge after]
    simp [modifySlot, slots]

theorem abortStackImpl_of_quiet (quiet : s.isAbortReq = false) : s.abortStackImpl = s := by
  simp [abortStackImpl, quiet]

/-- All that `abortStackImpl` changes. `isPlaybackBeginPending` is not part of it. -/
theorem abortStackImpl_spec (aborting : s.isAbortReq = true) : ∃ modules discards control,
    s.abortStackImpl =
      { s with
        isAbortReq := false
        moduleStack := fun i =>
          if i < MAX_MODULE_STACK_DEPTH then clearedSlot (s.moduleStack i) else s.moduleStack i
        modules := modules
        discards := discards
        control := control
        moduleStackIndex := 0
        isPlaybackActive := false
        abortReqReason := "" } := by
  obtain ⟨modules, discards, control, cleared⟩ := clearSlots { s with isAbortReq := false }
    MAX_MODULE_STACK_DEPTH
  refine ⟨modules, discards, control, ?_⟩
  unfold abortStackImpl
  rw [if_neg (by simp [aborting])]
  simp only [cleared]

theorem clearSlot_control (s : Sched) (i : Nat) :
    (s.clearSlot i).control = s.control ∨ (s.clearSlot i).control = .crash := by
  simp only [clearSlot]
  split
  · exact .inl rfl
  · simp only [setModule_control, discardModule, modifyCtx_control]
    split
    · exact .inr rfl
    · exact .inl rfl

theorem clearSlots_control (s : Sched) (slots : List Nat) :
    (slots.foldl (fun s i => s.clearSlot i) s).control = s.control ∨
      (slots.foldl (fun s i => s.clearSlot i) s).control = .crash := by
  induction slots generalizing s with
  | nil => exact .inl rfl
  | cons i slots ih =>
    rw [List.foldl_cons]
    rcases ih (s.clearSlot i) with same | crashed
    · rw [same]
      exact s.clearSlot_control i
    · exact .inr crashed

/-- The abort goes through, or discards some module a second time. -/
theorem abortStackImpl_control (s : Sched) :
    s.abortStackImpl.control = s.control ∨ s.abortStackImpl.control = .crash := by
  unfold abortStackImpl
  split
  · exact .inl rfl
  · exact clearSlots_control { s with isAbortReq := false } _

/-- At the start of a frame no context is on the C++ stack. -/
theorem StackInv.abortStackImpl (inv : s.StackInv) (empty : s.running = []) :
    s.abortStackImpl.StackInv ∧ s.abortStackImpl.running = [] := by
  by_cases quiet : s.isAbortReq = false
  · rw [abortStackImpl_of_quiet quiet]
    exact ⟨inv, empty⟩
  · obtain ⟨modules, discards, control, cleared⟩ :=
      abortStackImpl_spec (s := s) (by simpa using quiet)
    rw [cleared]
    refine ⟨⟨Nat.zero_lt_succ 11, fun i => ?_, inv.within, inv.nested, fun _ i _ inside => ?_, nofun⟩, empty⟩
    · have active := inv.active i
      by_cases inside : i < MAX_MODULE_STACK_DEPTH
      · simpa only [if_pos inside, clearedSlot, ScriptContext.unprepare_active,
          ScriptContext.abort_active] using active
      · simpa only [if_neg inside] using active
    · simp only [if_pos inside, clearedSlot]

theorem inv_playbackCalc (inv : s.StackInv) (stands : s.control = .idle) (empty : s.running = [])
    (deltaFrame60 : Nat) : (s.playbackCalc deltaFrame60).Inv := by
  obtain ⟨inv', empty'⟩ := inv.abortStackImpl empty
  have placed : s.abortStackImpl.Placed := by
    rcases s.abortStackImpl_control with same | crashed
    · simpa only [Placed, same.trans stands] using empty'
    · simp only [Placed, crashed]
  rw [playbackCalc]
  rcases s.abortStackImpl.playbackResume_cases deltaFrame60 with same | same
  · rw [same]
    exact .inr ⟨inv', placed⟩
  · rw [same]
    refine .inr ⟨⟨inv'.index_lt, inv'.active, inv'.within, inv'.nested, inv'.above,
      inv'.stopping⟩, ?_⟩
    show Waiting _ s.abortStackImpl.running
    rw [empty']
    exact fun i member => absurd member List.not_mem_nil

/-- Ticks do not end an abort. -/
theorem aborting_tick (inv : s.Inv) (aborting : s.isAbortReq = true) :
    s.tick.isAbortReq = true ∧ s.control ≠ .run := by
  rcases inv with broken | ⟨-, placed⟩
  · exact ⟨by simp [tick, broken, aborting], by simp [broken]⟩
  · cases stands : s.control with
    | idle => exact ⟨by simp [tick, stands, aborting], by decide⟩
    | fault => exact ⟨by simp [tick, stands, aborting], by decide⟩
    | crash => exact ⟨by simp [tick, stands, aborting], by decide⟩
    | ctxEnter deltaFrame60 =>
      have invalid : s.isValidForExecution = false := by simp [isValidForExecution, aborting]
      refine ⟨?_, Control.noConfusion⟩
      simp only [tick, stands, calcCtxEnter, if_pos invalid]
      rfl
    | boundary =>
      simp only [Placed, stands] at placed
      obtain ⟨sp, rest, running, -, -⟩ := placed
      refine ⟨?_, by decide⟩
      simp only [tick, stands, running, checkFlags]
      split
      · exact aborting
      · split <;> exact aborting
    | run =>
      simp only [Placed, stands] at placed
      obtain ⟨rest, -, -, calm⟩ := placed
      exact absurd (calm.symm.trans aborting) (by decide)

theorem inv_init : Sched.init.Inv := by
  refine .inr ⟨⟨by decide, fun i => ?_, nofun, List.Pairwise.nil, fun _ i _ _ => rfl, nofun⟩, rfl⟩
  exact ⟨nofun, nofun⟩

/-- Every step keeps the stack invariant. -/
theorem inv_step {a : Action} (inv : s.Inv) (taken : Step s a t) : t.Inv := by
  cases taken with
  | tick _ _ => exact inv_tick inv
  | push source answers program stands =>
    rcases inv with broken | ⟨inv, placed⟩
    · exact absurd (broken.symm.trans stands) (by decide)
    · simp only [Placed, stands] at placed
      exact inv_pushed ⟨inv, .inl ⟨stands, placed⟩⟩ (s.pushed_pushFrom answers program source)
  | frame deltaFrame60 stands =>
    rcases inv with broken | ⟨inv, placed⟩
    · exact absurd (broken.symm.trans stands) (by decide)
    · simp only [Placed, stands] at placed
      exact inv_playbackCalc inv stands placed deltaFrame60
  | pauses counts targets _ =>
    rcases inv with broken | ⟨inv, placed⟩
    · exact .inl broken
    · exact .inr ⟨⟨inv.index_lt, inv.active, inv.within, inv.nested, inv.above, inv.stopping⟩,
        placed⟩

theorem inv_reachable (reached : scheduler.Reachable s) : s.Inv :=
  System.Reachable.invariant (fun _ start => start ▸ inv_init) (fun _ _ _ => inv_step) reached

/-- Between two frames no script is being executed. -/
theorem reachable_idle (reached : scheduler.Reachable s) (stands : s.control = .idle) :
    s.StackInv ∧ s.running = [] := by
  rcases inv_reachable reached with broken | ⟨inv, placed⟩
  · exact absurd (broken.symm.trans stands) (by decide)
  · simp only [Placed, stands] at placed
    exact ⟨inv, placed⟩

theorem reachable_performAll {actions : List Action}
    (can : System.allEnabled Sched.enabled Sched.perform actions .init = true) :
    scheduler.Reachable (System.performAll Sched.perform actions .init) := by
  have last : scheduler.ReachableUnder (fun _ _ => True) _ :=
    (scheduler.replay actions can).reachableUnder actions.length (Nat.le_refl _) fun _ _ => trivial
  have all : actions.take actions.length = actions := List.take_length
  exact (congrArg (fun a => System.performAll Sched.perform a .init) all) ▸ last

end Sched

end LotusKit.Schedule

import LotusKit.Schedule.Reachable

/-! The bound of the stack. `pushExecModuleEntryPoint` increments the index without looking
at the size of the array, so a run stays inside `moduleStack` exactly when no push finds
all twelve slots taken. -/

namespace LotusKit.Schedule
open LotusKit.Lib.Transition

namespace Sched
variable {s t u : Sched}

/-- The slots in use are in the array, and memory past the array is as it was at boot. -/
structure InBounds (s : Sched) : Prop where
  index_lt : s.moduleStackIndex < MAX_MODULE_STACK_DEPTH
  running_lt : ∀ i ∈ s.running, i < MAX_MODULE_STACK_DEPTH
  control_ne : s.control ≠ .fault
  outside : ∀ i, MAX_MODULE_STACK_DEPTH ≤ i → s.moduleStack i = .empty

/-- The next push goes past the last slot. -/
def Full (s : Sched) : Prop :=
  s.getSP.asModule ≠ none ∧ MAX_MODULE_STACK_DEPTH ≤ s.moduleStackIndex + 1

/-- The step pushes a module, which it found or built, onto a full stack. -/
def Overflows (s : Sched) : Action → Prop
  | .tick => s.Full ∧ s.control = .run ∧ ∃ sp slots e child rest, s.running = sp :: slots ∧
      (s.moduleStack sp).asCtx.program = .exec e child rest ∧
      s.getsModule e.bind.target e.source = true
  | .push source answers _ => s.Full ∧ s.getsModule source.target answers = true
  | .frame _ => False
  | .pauses _ _ => False

/-- `t` is no fault, and differs from `s` inside the array only. -/
structure Contained (s t : Sched) : Prop where
  control_ne : t.control ≠ .fault
  outside : ∀ i, MAX_MODULE_STACK_DEPTH ≤ i → t.moduleStack i = s.moduleStack i

theorem Contained.trans (first : ∀ i, MAX_MODULE_STACK_DEPTH ≤ i → t.moduleStack i = s.moduleStack i)
    (second : Contained t u) : Contained s u :=
  ⟨second.control_ne, fun i past => (second.outside i past).trans (first i past)⟩

theorem ne_of_past {i j : Nat} (past : MAX_MODULE_STACK_DEPTH ≤ i)
    (inside : j < MAX_MODULE_STACK_DEPTH) : i ≠ j := by
  omega

theorem outside_abortStackReq (reason : String) (i : Nat) (past : MAX_MODULE_STACK_DEPTH ≤ i) :
    (s.abortStackReq reason).moduleStack i = s.moduleStack i := by
  have notInside : ¬i < MAX_MODULE_STACK_DEPTH := by omega
  simp only [abortStackReq, if_neg notInside]

theorem contained_abortStackReq (stands : s.control ≠ .fault) (reason : String) :
    Contained s (s.abortStackReq reason) :=
  ⟨stands, outside_abortStackReq reason⟩

theorem contained_calcCtxReturn (isCompleteOrFail : Bool) :
    Contained s (s.calcCtxReturn isCompleteOrFail) := by
  refine ⟨?_, fun i past => rfl⟩
  simp only [calcCtxReturn]
  split <;> decide

theorem SameScripts.contained (same : SameScripts s t) (index_lt : s.moduleStackIndex < MAX_MODULE_STACK_DEPTH)
    (stands : s.control ≠ .fault) : Contained s t :=
  ⟨same.control ▸ stands, same.outside index_lt⟩

theorem contained_calcCtxEnter (inv : s.StackInv) (deltaFrame60 : Nat) :
    Contained s (s.calcCtxEnter deltaFrame60) := by
  simp only [calcCtxEnter]
  split
  · exact .trans (outside_abortStackReq _) (contained_calcCtxReturn _)
  · have asked := s.sameScripts_isBlockedFromScheduling
    generalize s.isBlockedFromScheduling = answer at asked ⊢
    obtain ⟨isBlocked, u⟩ := answer
    have charged := sameScripts_calcConsumeFrametime u deltaFrame60
    generalize u.calcConsumeFrametime_queryIsInputExhausted deltaFrame60 = answer at charged ⊢
    obtain ⟨isInputExhausted, v⟩ := answer
    simp only at asked charged ⊢
    have same := asked.trans charged
    split
    · exact .trans (asked.outside inv.index_lt) (contained_calcCtxReturn _)
    · split
      · exact .trans (same.outside inv.index_lt) (contained_calcCtxReturn _)
      · refine .trans (same.outside inv.index_lt) ⟨by simp [beginExecute], fun i past => ?_⟩
        have different := ne_of_past past (same.moduleStackIndex ▸ inv.index_lt)
        simp [beginExecute, modifyCtx, different]

/-- A returning script touches its own slot, the slot on top and the one below it. -/
theorem contained_executeReturn {sp : Nat} (inside : sp < MAX_MODULE_STACK_DEPTH)
    (index_lt : s.moduleStackIndex < MAX_MODULE_STACK_DEPTH) (status : EContextState) :
    Contained s (s.executeReturn sp status) := by
  have left (i : Nat) (past : MAX_MODULE_STACK_DEPTH ≤ i) :
      (s.leaveExecute sp status).moduleStack i = s.moduleStack i := by
    simp [leaveExecute, modifyCtx, ne_of_past past inside]
  have index : (s.leaveExecute sp status).moduleStackIndex < MAX_MODULE_STACK_DEPTH := index_lt
  unfold executeReturn
  generalize s.leaveExecute sp status = u at left index ⊢
  refine .trans left ?_
  cases status with
  | finished =>
    have popped (i : Nat) (past : MAX_MODULE_STACK_DEPTH ≤ i) :
        ((u.modifyCtx sp ScriptContext.unprepare).tryDiscardLastModuleForPop).moduleStack i =
          u.moduleStack i := by
      obtain ⟨_, _, _, popped⟩ := tryDiscardLastModuleForPop_stack
        (s := u.modifyCtx sp ScriptContext.unprepare)
      rw [popped]
      simp [setModule, modifyCtx, ne_of_past past inside, ne_of_past past index]
    simp only [calcCtxAfterExecute]
    split
    next crashed => exact ⟨fun broken => (by cases crashed.symm.trans broken), popped⟩
    split
    · exact .trans popped (contained_calcCtxReturn _)
    · refine .trans popped ⟨Control.noConfusion, fun i past => ?_⟩
      unfold inheritOnPop
      split
      · have different := ne_of_past past (Nat.lt_of_le_of_lt (Nat.sub_le sp 1) inside)
        simp [modifyState, different]
      · rfl
  | exception => exact .trans (outside_abortStackReq _) (contained_calcCtxReturn _)
  | suspended => exact contained_calcCtxReturn _
  | aborted => exact contained_calcCtxReturn _
  | prepared => exact contained_calcCtxReturn _
  | uninitialized => exact contained_calcCtxReturn _
  | active => exact contained_calcCtxReturn _
  | error => exact contained_calcCtxReturn _

theorem contained_enterSlot {k : Nat} (inside : k < MAX_MODULE_STACK_DEPTH)
    (stands : s.control ≠ .fault) (m : Nat) (hasEntryPoint : Bool) (program : Script)
    (doImmediateExecute blockOnDebugPause : Bool) :
    Contained s (s.enterSlot k m hasEntryPoint program doImmediateExecute blockOnDebugPause) := by
  have given (i : Nat) (past : MAX_MODULE_STACK_DEPTH ≤ i) :
      ((s.setModule k (some m)).modifyState k fun state =>
        { state with blockOnDebugPause := blockOnDebugPause }).moduleStack i = s.moduleStack i := by
    simp [setModule, modifyState, ne_of_past past inside]
  simp only [enterSlot]
  split
  · exact contained_abortStackReq stands _
  · split
    · exact .trans given ⟨stands, outside_abortStackReq _⟩
    · refine .trans given ?_
      split
      · refine ⟨Control.noConfusion, fun i past => ?_⟩
        simp [setModule, modifyState, modifyCtx, ne_of_past past inside]
      · refine ⟨stands, fun i past => ?_⟩
        simp [setModule, modifyState, modifyCtx, ne_of_past past inside]

theorem getSP_suspend :
    (if s.getSP.asCtx.status = .active then s.trySuspendCtx else s).getSP.asModule =
      s.getSP.asModule := by
  split <;> simp [trySuspendCtx, modifyCtx]

theorem index_suspend :
    (if s.getSP.asCtx.status = .active then s.trySuspendCtx else s).moduleStackIndex =
      s.moduleStackIndex := by
  split <;> rfl

/-- The whole array is taken: the push writes past it. -/
theorem pushExecModuleEntryPoint_of_full (full : s.Full) (m : Nat) (hasEntryPoint : Bool)
    (program : Script) (doImmediateExecute blockOnDebugPause : Bool) :
    (s.pushExecModuleEntryPoint m hasEntryPoint program doImmediateExecute
      blockOnDebugPause).control = .fault := by
  have taken := full.1
  rw [← getSP_suspend] at taken
  have past := full.2
  rw [← index_suspend] at past
  simp only [pushExecModuleEntryPoint, if_neg taken, if_neg (Nat.not_lt_of_le past)]

theorem contained_pushExecModuleEntryPoint (index_lt : s.moduleStackIndex < MAX_MODULE_STACK_DEPTH)
    (stands : s.control ≠ .fault) (room : ¬s.Full) (m : Nat) (hasEntryPoint : Bool)
    (program : Script) (doImmediateExecute blockOnDebugPause : Bool) :
    Contained s (s.pushExecModuleEntryPoint m hasEntryPoint program doImmediateExecute
      blockOnDebugPause) := by
  have suspended : Contained s (if s.getSP.asCtx.status = .active then s.trySuspendCtx else s) := by
    split
    · refine ⟨stands, fun i past => ?_⟩
      simp [trySuspendCtx, modifyCtx, ne_of_past past index_lt]
    · exact ⟨stands, fun _ _ => rfl⟩
  have top := getSP_suspend (s := s)
  have index := index_suspend (s := s)
  simp only [pushExecModuleEntryPoint]
  generalize (if s.getSP.asCtx.status = .active then s.trySuspendCtx else s) = u
    at suspended top index ⊢
  refine .trans suspended.outside ?_
  split
  · have inside : u.moduleStackIndex < MAX_MODULE_STACK_DEPTH := index ▸ index_lt
    refine .trans (fun i past => ?_) (contained_enterSlot inside ?_ _ _ _ _ _)
    · rw [modifySlot_moduleStack, if_neg (ne_of_past past inside)]
    · exact suspended.control_ne
  next taken =>
    have inside : u.moduleStackIndex + 1 < MAX_MODULE_STACK_DEPTH := by
      by_contra past
      exact room ⟨top ▸ taken, index ▸ Nat.le_of_not_lt past⟩
    rw [if_pos inside]
    refine .trans (fun i past => ?_) (contained_enterSlot inside ?_ _ _ _ _ _)
    · rw [inheritOnPush, modifySlot_moduleStack, if_neg (ne_of_past past inside)]
    · exact suspended.control_ne

theorem contained_pushed (index_lt : s.moduleStackIndex < MAX_MODULE_STACK_DEPTH)
    (stands : s.control ≠ .fault) {target : PushTarget} {answers : ScriptSource} {program : Script}
    {doImmediateExecute blockOnDebugPause : Bool}
    (room : ¬(s.Full ∧ s.getsModule target answers = true))
    (pushed : Pushed s target answers program doImmediateExecute blockOnDebugPause t) :
    Contained s t := by
  cases pushed with
  | refused reason _ => exact contained_abortStackReq stands reason
  | entered gets provided =>
    have fits : ¬s.Full := fun full => room ⟨full, gets⟩
    cases provided with
    | reused _ => exact contained_pushExecModuleEntryPoint index_lt stands fits _ _ _ _ _
    | built _ =>
      have entered := contained_pushExecModuleEntryPoint (s := { s with
        modules := s.modules ++ [(target.name, s.builtModules)]
        builtModules := s.builtModules + 1 }) index_lt stands fits s.builtModules
          answers.hasEntryPoint program doImmediateExecute blockOnDebugPause
      exact ⟨entered.control_ne, entered.outside⟩

theorem fault_pushed (full : s.Full) {target : PushTarget} {answers : ScriptSource}
    (gets : s.getsModule target answers = true) {program : Script}
    {doImmediateExecute blockOnDebugPause : Bool}
    (pushed : Pushed s target answers program doImmediateExecute blockOnDebugPause t) :
    t.control = .fault := by
  cases pushed with
  | refused _ without => exact absurd (without.symm.trans gets) (by decide)
  | entered _ provided =>
    cases provided with
    | reused _ => exact pushExecModuleEntryPoint_of_full full _ _ _ _ _
    | built _ =>
      exact pushExecModuleEntryPoint_of_full (s := { s with
        modules := s.modules ++ [(target.name, s.builtModules)]
        builtModules := s.builtModules + 1 }) full _ _ _ _ _

theorem contained_callBind (inv : s.StackInv) (stands : s.control ≠ .fault) (bind : Bind) :
    Contained s (s.callBind bind) := by
  rcases s.callBind_cases bind with ⟨reason, -, aborted⟩ | same | same
  · rw [aborted]
    exact contained_abortStackReq stands reason
  · exact same.contained inv.index_lt stands
  · have suspended (i : Nat) (past : MAX_MODULE_STACK_DEPTH ≤ i) :
        s.trySuspendCtx.moduleStack i = s.moduleStack i := by
      simp [trySuspendCtx, modifyCtx, ne_of_past past inv.index_lt]
    exact .trans suspended (same.contained inv.index_lt stands)

theorem full_setProgram (sp : Nat) (rest : Script) :
    (s.setProgram sp rest).Full ↔ s.Full := by
  by_cases top : s.moduleStackIndex = sp <;> simp [Full, getSP, setProgram, modifyCtx, top]

/-- The next statement of the script on top, unless it pushes onto a full stack. -/
theorem contained_runStatement (inv : s.StackInv) {slots : List Nat}
    (running : s.running = s.moduleStackIndex :: slots) (stands : s.control = .run)
    (room : ¬s.Overflows .tick) : Contained s (s.runStatement s.moduleStackIndex) := by
  have stepped (next : Script) (i : Nat) (past : MAX_MODULE_STACK_DEPTH ≤ i) :
      (s.setProgram s.moduleStackIndex next).moduleStack i = s.moduleStack i := by
    simp [setProgram, modifyCtx, ne_of_past past inv.index_lt]
  have goesOn (next : Script) : (s.setProgram s.moduleStackIndex next).control ≠ .fault := Control.noConfusion
  unfold runStatement
  cases program : (s.moduleStack s.moduleStackIndex).asCtx.program with
  | done => exact contained_executeReturn inv.index_lt inv.index_lt _
  | throw => exact contained_executeReturn inv.index_lt inv.index_lt _
  | call bind rest => exact .trans (stepped rest) (contained_callBind (inv.setProgram _ rest) (goesOn rest) bind)
  | exec e child rest =>
    have pushed := pushed_pushExec (s.setProgram s.moduleStackIndex rest) e child
    have index_lt : (s.setProgram s.moduleStackIndex rest).moduleStackIndex < MAX_MODULE_STACK_DEPTH :=
      inv.index_lt
    refine .trans (stepped rest) (contained_pushed index_lt (goesOn rest) ?_ pushed)
    rintro ⟨full, gets⟩
    exact room ⟨(full_setProgram _ _).mp full, stands, _, slots, e, child, rest, running, program, gets⟩

/-- Outside of a push onto a full stack, no step leaves the array. -/
theorem contained_tick (inv : s.Inv) (stands : s.control ≠ .fault) (room : ¬s.Overflows .tick) :
    Contained s s.tick := by
  rcases inv with broken | ⟨inv, placed⟩
  · exact absurd broken stands
  · cases at_ : s.control with
    | idle =>
      simp only [tick, at_]
      exact ⟨stands, fun _ _ => rfl⟩
    | ctxEnter d =>
      simp only [tick, at_]
      exact contained_calcCtxEnter inv d
    | boundary =>
      simp only [Placed, at_] at placed
      obtain ⟨sp, rest, running, -⟩ := placed
      have inside := inv.within sp (by simp [running])
      simp only [tick, at_, running, checkFlags]
      split
      · exact ⟨Control.noConfusion, fun _ _ => rfl⟩
      · split
        · exact contained_executeReturn inside inv.index_lt _
        · exact contained_executeReturn inside inv.index_lt _
    | run =>
      simp only [Placed, at_] at placed
      obtain ⟨rest, running, waiting, -⟩ := placed
      simp only [tick, at_, running]
      exact contained_runStatement inv running at_ room
    | fault => exact absurd at_ stands
    | crash =>
      simp only [tick, at_]
      exact ⟨stands, fun _ _ => rfl⟩

theorem contained_playbackCalc (stands : s.control = .idle) (deltaFrame60 : Nat)
    (bounds : s.InBounds) : (s.playbackCalc deltaFrame60).control ≠ .fault ∧
      ∀ i, MAX_MODULE_STACK_DEPTH ≤ i → (s.playbackCalc deltaFrame60).moduleStack i = .empty := by
  have whole : s.abortStackImpl.control ≠ .fault := by
    rcases s.abortStackImpl_control with same | crashed
    · simp [same, stands]
    · simp [crashed]
  have outside (i : Nat) (past : MAX_MODULE_STACK_DEPTH ≤ i) :
      s.abortStackImpl.moduleStack i = .empty := by
    by_cases quiet : s.isAbortReq = false
    · rw [abortStackImpl_of_quiet quiet]
      exact bounds.outside i past
    · obtain ⟨_, _, _, cleared⟩ := abortStackImpl_spec (s := s) (by simpa using quiet)
      rw [cleared]
      simp only [if_neg (Nat.not_lt_of_le past)]
      exact bounds.outside i past
  rw [playbackCalc]
  rcases s.abortStackImpl.playbackResume_cases deltaFrame60 with same | same
  · rw [same]
    exact ⟨whole, outside⟩
  · rw [same]
    exact ⟨Control.noConfusion, outside⟩

/-- A step that pushes onto no full stack stays inside the array. -/
theorem inBounds_step {a : Action} (inv : s.Inv) (bounds : s.InBounds) (room : ¬s.Overflows a)
    (taken : Step s a t) : t.InBounds := by
  have contained : t.control ≠ .fault ∧
      ∀ i, MAX_MODULE_STACK_DEPTH ≤ i → t.moduleStack i = .empty := by
    cases taken with
    | tick _ runs =>
      have ticked := contained_tick inv runs.1 room
      exact ⟨ticked.control_ne, fun i past => (ticked.outside i past).trans (bounds.outside i past)⟩
    | push source answers program stands =>
      have pushed := contained_pushed bounds.index_lt bounds.control_ne room
        (s.pushed_pushFrom answers program source)
      exact ⟨pushed.control_ne, fun i past => (pushed.outside i past).trans (bounds.outside i past)⟩
    | frame deltaFrame60 stands => exact contained_playbackCalc stands deltaFrame60 bounds
    | pauses counts targets runs => exact ⟨runs.1, bounds.outside⟩
  rcases inv_step inv taken with broken | ⟨stack, -⟩
  · exact absurd broken contained.1
  · exact ⟨stack.index_lt, stack.within, contained.1, contained.2⟩

/-- A push onto a full stack writes past the array. -/
theorem fault_step {a : Action} (overflows : s.Overflows a) (taken : Step s a t) :
    t.control = .fault := by
  cases taken with
  | tick _ stands =>
    obtain ⟨full, at_, sp, slots, e, child, rest, running, program, gets⟩ := overflows
    simp only [tick, at_, running, runStatement, program]
    exact fault_pushed ((full_setProgram _ _).mpr full) gets (pushed_pushExec _ e child)
  | push source answers program stands =>
    exact fault_pushed overflows.1 overflows.2 (s.pushed_pushFrom answers program source)
  | frame deltaFrame60 stands => exact overflows.elim
  | pauses counts targets stands => exact overflows.elim

theorem inBounds_init : Sched.init.InBounds :=
  ⟨Nat.zero_lt_succ 11, nofun, nofun, fun _ _ => rfl⟩

theorem inBounds_reachable
    (reached : scheduler.ReachableUnder (fun s a => ¬s.Overflows a) s) : s.InBounds := by
  have both := @System.ReachableUnder.invariant _ _ scheduler _ (fun s => s.Inv ∧ s.InBounds)
    (fun _ start => start ▸ ⟨inv_init, inBounds_init⟩)
    (fun _ _ _ held room taken => ⟨inv_step held.1 taken, inBounds_step held.1 held.2 room taken⟩)
    _ reached
  exact both.2

/-- The stack stays within its array, and a push that finds it full is refused. -/
def StackBounded (run : scheduler.Run) : Prop :=
  (∀ i ≤ run.length, (run.state i).InBounds) ∧
    ∀ i < run.length, (run.state i).Overflows (run.action i) → (run.state (i + 1)).isAbortReq = true

/-- The stack bound holds along a run exactly when no push of the run finds the stack
full. -/
theorem stackBounded_iff (run : scheduler.Run) :
    StackBounded run ↔ ∀ i < run.length, ¬(run.state i).Overflows (run.action i) := by
  have enough (s : Sched) (reached : scheduler.ReachableUnder (fun s a => ¬s.Overflows a) s) :
      s.InBounds := inBounds_reachable reached
  have exact_ := run.holds_iff enough fun s a t _ full taken bounds =>
    bounds.control_ne (fault_step (not_not.mp full) taken)
  constructor
  · intro bounded
    exact exact_.mp bounded.1
  · intro room
    exact ⟨exact_.mpr room, fun i within overflows => absurd overflows (room i within)⟩

/-- Pressing a hotkey again while the script it started waits for its input. -/
def pressAgain : List Action :=
  [.push (.hotkeyFile "sdcard:/a.as") ⟨true, false, true, true⟩ (.call (.input 600 1 ⟨0, 0⟩ ⟨0, 0⟩) .done),
   .frame 2, .tick, .tick, .tick, .tick]

def thirteenPresses : List Action :=
  (List.replicate 12 pressAgain).flatten ++ pressAgain.take 1

/-- Thirteen presses of one hotkey, twelve of them with a frame in between. -/
theorem thirteenPresses_not_bounded :
    ¬StackBounded (scheduler.replay thirteenPresses (by decide +kernel)) := by
  intro bounded
  have last := (bounded.1 73 (by decide +kernel)).control_ne
  exact absurd (by decide +kernel) last

end Sched

end LotusKit.Schedule

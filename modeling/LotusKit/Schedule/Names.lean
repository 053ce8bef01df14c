import LotusKit.Schedule.Modules

/-! Scripts by name. A nested call takes the module of its file or text if there is one, so
two scripts on the stack share a module exactly when they have the same name. A pop discards
the module under the caller when the caller is the only other one with it, and the pop of the
caller then discards it once more. Whether that happens can be told from the scripts alone. -/

namespace LotusKit.Schedule
open LotusKit.Lib.Transition

/-- No script calls its own file or text, unless a script below the caller has it too. `own` is
the name of the script, and `below` are the names below it. -/
def Script.CallsOthers (below : List String) (own : String) : Script → Prop
  | .done => True
  | .throw => True
  | .call _ rest => rest.CallsOthers below own
  | .exec e child rest =>
    (e.bind.target.name = own → own ∈ below) ∧
      child.CallsOthers (own :: below) e.bind.target.name ∧ rest.CallsOthers below own

namespace Sched
variable {s t u : Sched}

def Vacant (frame : ModuleStackFrame) : Prop :=
  frame.asModule = none ∧ frame.asCtx.status = .uninitialized

/-- The stack holds the same scripts in both states, each with the same program to go. -/
structure Stays (s t : Sched) : Prop where
  modules : SameModules s t
  index : t.moduleStackIndex = s.moduleStackIndex
  program : ∀ i, (t.moduleStack i).asCtx.program = (s.moduleStack i).asCtx.program
  above : ∀ i, s.moduleStackIndex < i →
    (t.moduleStack i).asCtx.status = (s.moduleStack i).asCtx.status

theorem Stays.trans (first : Stays s t) (second : Stays t u) : Stays s u :=
  ⟨first.modules.trans second.modules, second.index.trans first.index,
    fun i => (second.program i).trans (first.program i),
    fun i beyond => (second.above i (first.index ▸ beyond)).trans (first.above i beyond)⟩

theorem SameScripts.stays (same : SameScripts s t) : Stays s t :=
  ⟨same.modules_same, same.moduleStackIndex, fun i => by rw [same.asCtx], fun i _ => by
    rw [same.asCtx]⟩

theorem stays_modifyCtx {i : Nat} (inside : i ≤ s.moduleStackIndex) {f : ScriptContext → ScriptContext}
    (program : ∀ c, (f c).program = c.program) : Stays s (s.modifyCtx i f) := by
  refine ⟨sameModules_modifyCtx i f, rfl, fun j => ?_, fun j beyond => ?_⟩
  · by_cases same : j = i <;> simp [modifyCtx, same, program]
  · have different : j ≠ i := by omega
    simp [modifyCtx, different]

/-- The top of the stack is popped: nothing else on the stack changes, and its module is
discarded unless a slot below its caller has it. -/
structure Leaves (s t : Sched) : Prop where
  index : t.moduleStackIndex = s.moduleStackIndex - 1
  running : t.running = s.running.tail
  vacant : Vacant (t.moduleStack s.moduleStackIndex)
  asModule : ∀ i, i ≠ s.moduleStackIndex → (t.moduleStack i).asModule = (s.moduleStack i).asModule
  asCtx : ∀ i, i ≠ s.moduleStackIndex → (t.moduleStack i).asCtx = (s.moduleStack i).asCtx
  discards : ∀ m ∈ s.discards.map Discard.asModule, m ∈ t.discards.map Discard.asModule
  discarded : ∀ m, s.getSP.asModule = some m →
    ((∃ i < s.moduleStackIndex - 1, (s.moduleStack i).asModule = some m) ∧ t.modules = s.modules) ∨
      ((∀ i < s.moduleStackIndex - 1, (s.moduleStack i).asModule ≠ some m) ∧
        t.modules = s.modules.filter (fun entry => entry.2 ≠ m) ∧
        m ∈ t.discards.map Discard.asModule)

theorem beforePop_asCtx (i : Nat) : (s.beforePop.moduleStack i).asCtx =
    if i = s.moduleStackIndex then
      ⟨.uninitialized, false, s.getSP.asCtx.doAbort, .done⟩
    else (s.moduleStack i).asCtx := by
  by_cases top : i = s.moduleStackIndex
  · simp [beforePop, leaveExecute, modifyCtx, ScriptContext.unprepare, top]
  · simp [beforePop, leaveExecute, modifyCtx, top]

/-- The stack after the pop, but for the modules. -/
theorem popped_executeReturn
    (whole : (s.executeReturn s.moduleStackIndex .finished).control ≠ .crash) :
    (s.executeReturn s.moduleStackIndex .finished).moduleStackIndex = s.moduleStackIndex - 1 ∧
      (s.executeReturn s.moduleStackIndex .finished).running = s.running.tail ∧
      ∀ i, ((s.executeReturn s.moduleStackIndex .finished).moduleStack i).asCtx =
        (s.beforePop.moduleStack i).asCtx := by
  obtain ⟨modules, discards, control, left⟩ :=
    tryDiscardLastModuleForPop_stack (s := s.beforePop)
  have index : s.beforePop.tryDiscardLastModuleForPop.moduleStackIndex = s.moduleStackIndex := by
    rw [tryDiscardLastModuleForPop_index]
    rfl
  have running : s.beforePop.tryDiscardLastModuleForPop.running = s.running.tail := by
    rw [left]
    rfl
  have asCtx (i : Nat) : (s.beforePop.tryDiscardLastModuleForPop.moduleStack i).asCtx =
      (s.beforePop.moduleStack i).asCtx := by
    rw [left]
    exact asCtx_setModule
  rw [s.executeReturn_finished_eq] at whole ⊢
  generalize s.beforePop.tryDiscardLastModuleForPop = w at index running asCtx whole ⊢
  split
  next crashed =>
    rw [if_pos crashed] at whole
    exact absurd crashed whole
  split
  next bottom => exact ⟨by rw [← index]; exact bottom.trans (by omega), running, asCtx⟩
  next =>
    have inherited := w.sameScripts_inheritOnPop
    rw [index] at inherited
    refine ⟨?_, inherited.running.trans running, fun i => (inherited.asCtx i).trans (asCtx i)⟩
    show (w.inheritOnPop s.moduleStackIndex).moduleStackIndex - 1 = _
    rw [inherited.moduleStackIndex, index]

theorem leaves_executeReturn
    (whole : (s.executeReturn s.moduleStackIndex .finished).control ≠ .crash) :
    Leaves s (s.executeReturn s.moduleStackIndex .finished) := by
  obtain ⟨modules, discards, control, left⟩ :=
    tryDiscardLastModuleForPop_stack (s := s.beforePop)
  have same := s.sameModules_beforePop
  have taken := s.sameModules_executeReturn_finished
  have asModule (i : Nat) : (s.beforePop.tryDiscardLastModuleForPop.moduleStack i).asModule =
      if i = s.moduleStackIndex then none else (s.moduleStack i).asModule := by
    have top : s.beforePop.moduleStackIndex = s.moduleStackIndex := rfl
    by_cases own : i = s.moduleStackIndex
    · simp [left, setModule, top, own]
    · simp [left, setModule, top, own, same.asModule]
  obtain ⟨index, running, asCtx⟩ := popped_executeReturn whole
  refine ⟨index, running, ⟨?_, ?_⟩, fun i other => ?_, fun i other => ?_, fun m gone => ?_,
    fun m holds => ?_⟩
  · rw [taken.asModule, asModule, if_pos rfl]
  · rw [asCtx, beforePop_asCtx, if_pos rfl]
  · rw [taken.asModule, asModule, if_neg other]
  · rw [asCtx, beforePop_asCtx, if_neg other]
  · rw [taken.discards]
    rw [← same.discards] at gone
    cases holds : s.beforePop.getSP.asModule with
    | none => rwa [tryDiscardLastModuleForPop, holds]
    | some n =>
      rcases tryDiscardLastModuleForPop_cases holds with ⟨-, popped⟩ | ⟨-, popped⟩
      · rwa [popped]
      · rw [popped]
        simp only [discardModule, setModule_discards, List.map_append]
        exact List.mem_append_left _ gone
  · have held : s.beforePop.getSP.asModule = some m := (same.asModule _).trans holds
    rcases tryDiscardLastModuleForPop_cases held with ⟨⟨i, below, uses⟩, popped⟩ | ⟨unused, popped⟩
    · exact .inl ⟨⟨i, below, (same.asModule i).symm.trans uses⟩, by rw [taken.modules, popped]; rfl⟩
    · refine .inr ⟨fun i below uses => unused i below ((same.asModule i).trans uses), ?_, ?_⟩
      · rw [taken.modules, popped]
        rfl
      · rw [taken.discards, popped]
        simp [discardModule]

/-- A push enters the first free slot, with a module that has the name. -/
structure Enters (s t : Sched) (name : String) (program : Script) (k m : Nat) : Prop where
  place : (k = s.moduleStackIndex ∧ s.getSP.asModule = none) ∨
    (k = s.moduleStackIndex + 1 ∧ s.getSP.asModule ≠ none ∧ k < MAX_MODULE_STACK_DEPTH)
  index : t.moduleStackIndex = k
  found : t.getModule name = some m
  known : ∀ other n, s.getModule other = some n → t.getModule other = some n
  discards : t.discards = s.discards
  asModule : (t.moduleStack k).asModule = some m
  program : (s.moduleStack k).asCtx.status = .uninitialized →
    (t.moduleStack k).asCtx.program = program
  others : ∀ i, i ≠ k → (t.moduleStack i).asModule = (s.moduleStack i).asModule ∧
    (t.moduleStack i).asCtx.program = (s.moduleStack i).asCtx.program ∧
    (t.moduleStack i).asCtx.status = (s.moduleStack i).asCtx.status

theorem Provided.getModule {name : String} {m : Nat} (provided : Provided s name m t) :
    t.getModule name = some m ∧
      ∀ other n, s.getModule other = some n → t.getModule other = some n := by
  cases provided with
  | reused found => exact ⟨found, fun _ _ => id⟩
  | built missing =>
    unfold Sched.getModule at missing ⊢
    refine ⟨?_, fun other n found => ?_⟩
    · rw [List.lookup_append, missing]
      simp
    · rw [List.lookup_append, found]
      rfl

/-- The last part of a push, in slot `k` of a scheduler `u` that has the scripts of `s`. -/
theorem enterSlot_cases {name : String} {k m : Nat} {hasEntryPoint : Bool} {program : Script}
    {doImmediateExecute blockOnDebugPause : Bool}
    (place : (k = s.moduleStackIndex ∧ s.getSP.asModule = none) ∨
      (k = s.moduleStackIndex + 1 ∧ s.getSP.asModule ≠ none ∧ k < MAX_MODULE_STACK_DEPTH))
    (same : ∀ i, (u.moduleStack i).asModule = (s.moduleStack i).asModule ∧
      (u.moduleStack i).asCtx.program = (s.moduleStack i).asCtx.program ∧
      (u.moduleStack i).asCtx.status = (s.moduleStack i).asCtx.status)
    (found : u.getModule name = some m)
    (known : ∀ other n, s.getModule other = some n → u.getModule other = some n)
    (discards : u.discards = s.discards) :
    (u.enterSlot k m hasEntryPoint program doImmediateExecute blockOnDebugPause).isAbortReq = true ∨
      Enters s (u.enterSlot k m hasEntryPoint program doImmediateExecute blockOnDebugPause) name program k m := by
  have entered (t : Sched)
      (slots : t.moduleStack = (((u.setModule k (some m)).modifyState k fun state =>
        { state with blockOnDebugPause := blockOnDebugPause }).modifyCtx k
          (ScriptContext.prepare program)).moduleStack)
      (index : t.moduleStackIndex = k) (modules : t.modules = u.modules)
      (gone : t.discards = u.discards) : Enters s t name program k m := by
    refine ⟨place, index, ?_, fun other n found => ?_, gone.trans discards, ?_, fun fresh => ?_,
      fun i other => ?_⟩
    · rwa [getModule, modules]
    · rw [getModule, modules]
      exact known other n found
    · simp [slots, modifyCtx, modifyState, setModule]
    · rw [← (same k).2.2] at fresh
      simp [slots, modifyCtx, modifyState, setModule, ScriptContext.prepare, fresh]
    · simp [slots, modifyCtx, modifyState, setModule, other, same]
  simp only [enterSlot]
  split
  · exact .inl rfl
  · split
    · exact .inl rfl
    · right
      split
      · exact entered _ rfl rfl rfl rfl
      · exact entered _ rfl rfl rfl rfl

/-- The three ends of a push: the run is over, an abort is requested, or a slot is entered. -/
theorem pushed_cases {target : PushTarget} {answers : ScriptSource} {program : Script}
    {doImmediateExecute blockOnDebugPause : Bool}
    (pushed : Pushed s target answers program doImmediateExecute blockOnDebugPause t) :
    ¬t.Runs ∨ t.isAbortReq = true ∨ ∃ k m, Enters s t target.name program k m := by
  cases pushed with
  | refused _ _ => exact .inr (.inl rfl)
  | @entered m u _ provided =>
    have names := provided.getModule
    have same : u.moduleStack = s.moduleStack ∧ u.moduleStackIndex = s.moduleStackIndex ∧
        u.discards = s.discards := by
      cases provided <;> exact ⟨rfl, rfl, rfl⟩
    have suspended : Stays u (if u.getSP.asCtx.status = .active then u.trySuspendCtx else u) ∧
        ∀ i, ((if u.getSP.asCtx.status = .active then u.trySuspendCtx else u).moduleStack
          i).asCtx.status = (u.moduleStack i).asCtx.status := by
      split
      · refine ⟨stays_modifyCtx (Nat.le_refl _) fun _ => rfl, fun i => ?_⟩
        by_cases top : i = u.moduleStackIndex <;>
          simp [trySuspendCtx, modifyCtx, top, ScriptContext.suspend]
      · exact ⟨⟨.refl u, rfl, fun _ => rfl, fun _ _ => rfl⟩, fun _ => rfl⟩
    obtain ⟨slots, index, discards⟩ := same
    unfold pushExecModuleEntryPoint
    generalize (if u.getSP.asCtx.status = .active then u.trySuspendCtx else u) = v at suspended
    obtain ⟨⟨modules, vindex, vprogram, -⟩, status⟩ := suspended
    have enter (w : Sched) (k : Nat) (same : SameScripts v w)
        (place : (k = s.moduleStackIndex ∧ s.getSP.asModule = none) ∨
          (k = s.moduleStackIndex + 1 ∧ s.getSP.asModule ≠ none ∧ k < MAX_MODULE_STACK_DEPTH)) :
        let t := w.enterSlot k m answers.hasEntryPoint program doImmediateExecute blockOnDebugPause
        ¬t.Runs ∨ t.isAbortReq = true ∨ ∃ k m, Enters s t target.name program k m := by
      have registry : w.modules = u.modules := same.modules.trans modules.modules
      refine .inr ((enterSlot_cases place (fun i => ⟨?_, ?_, ?_⟩) ?_ (fun other n found => ?_) ?_).imp_right
        fun enters => ⟨k, m, enters⟩)
      · rw [same.asModule, modules.asModule, slots]
      · rw [same.asCtx, vprogram, slots]
      · rw [same.asCtx, status, slots]
      · rw [getModule, registry]
        exact names.1
      · rw [getModule, registry]
        exact names.2 other n found
      · rw [same.discards, modules.discards, discards]
    have top : v.getSP.asModule = s.getSP.asModule := by
      rw [getSP, modules.asModule, vindex, index, slots]
    simp only
    split
    next empty =>
      exact enter (v.modifySlot v.moduleStackIndex ModuleStackFrame.resetState) v.moduleStackIndex
        (v.sameScripts_modifyTop fun state =>
          (ModuleStackFrame.resetState { v.getSP with state := state }).state)
        (.inl ⟨vindex.trans index, top ▸ empty⟩)
    next taken =>
      split
      next inside =>
        exact enter (v.inheritOnPush v.moduleStackIndex) (v.moduleStackIndex + 1)
          (v.sameScripts_modifyState (v.moduleStackIndex + 1) (fun _ => inside) fun state =>
            { (ModuleStackFrame.resetState { v.getSP with state := state }).state with
              input := v.getSP.state.input
              playbackInputPassthroughMode := v.getSP.state.playbackInputPassthroughMode })
          (.inr ⟨by rw [vindex, index], top ▸ taken, inside⟩)
      next => exact .inl fun runs => runs.1 rfl

/-- What one tick does to the stack. -/
inductive StackStep (s : Sched) : Sched → Prop
  | ends {t : Sched} : ¬t.Runs → StackStep s t
  | aborts {t : Sched} : t.isAbortReq = true → StackStep s t
  | rests : StackStep s s
  | stays {t : Sched} : s.getSP.asModule ≠ none ∨ s.running ≠ [] → Stays s t → StackStep s t
  | calls {t : Sched} {bind : Bind} {next : Script} : s.running ≠ [] →
      s.getSP.asCtx.program = .call bind next →
      Stays (s.setProgram s.moduleStackIndex next) t → StackStep s t
  | pushes {t : Sched} {e : Exec} {child next : Script} {k m : Nat} : s.running ≠ [] →
      s.getSP.asCtx.program = .exec e child next →
      Enters (s.setProgram s.moduleStackIndex next) t e.bind.target.name child k m → StackStep s t
  | pops {t : Sched} {rest : List Nat} : s.running = s.moduleStackIndex :: rest →
      s.getSP.asCtx.program = .done → ¬s.PopsAgain → Leaves s t → StackStep s t

theorem sameModules_setProgram (s : Sched) (i : Nat) (next : Script) :
    SameModules s (s.setProgram i next) :=
  ⟨(sameModules_modifyCtx (s := s) i fun c => { c with program := next }).asModule, rfl, rfl, rfl⟩

theorem stays_calcCtxReturn (isCompleteOrFail : Bool) : Stays s (s.calcCtxReturn isCompleteOrFail) :=
  ⟨sameModules_calcCtxReturn _, rfl, fun _ => rfl, fun _ _ => rfl⟩

theorem stays_beginExecute (s : Sched) :
    Stays s { s with isPlaybackBeginPending := false }.beginExecute := by
  refine ⟨⟨fun i => ?_, rfl, rfl, rfl⟩, rfl, fun i => ?_, fun i beyond => ?_⟩
  · by_cases top : i = s.moduleStackIndex <;> simp [beginExecute, modifyCtx, top]
  · by_cases top : i = s.moduleStackIndex <;> simp [beginExecute, modifyCtx, top]
  · simp [beginExecute, modifyCtx, Nat.ne_of_gt beyond]

theorem stackStep_calcCtxEnter (s : Sched) (deltaFrame60 : Nat) : StackStep s (s.calcCtxEnter deltaFrame60) := by
  simp only [calcCtxEnter]
  split
  · exact .aborts rfl
  next valid =>
    have occupied := (isValidForExecution_iff.mp (by simpa using valid)).2.1
    have asked := s.sameScripts_isBlockedFromScheduling
    generalize s.isBlockedFromScheduling = answer at asked ⊢
    obtain ⟨isBlocked, u⟩ := answer
    have charged := sameScripts_calcConsumeFrametime u deltaFrame60
    generalize u.calcConsumeFrametime_queryIsInputExhausted deltaFrame60 = answer at charged ⊢
    obtain ⟨isInputExhausted, v⟩ := answer
    simp only at asked charged ⊢
    have both := (asked.trans charged).stays
    split
    · exact .stays (.inl occupied) (asked.stays.trans (stays_calcCtxReturn _))
    · split
      · exact .stays (.inl occupied) (both.trans (stays_calcCtxReturn _))
      · exact .stays (.inl occupied) (both.trans (stays_beginExecute v))

theorem stays_executeReturn {sp : Nat} (inside : sp ≤ s.moduleStackIndex) {status : EContextState}
    (unfinished : status ≠ .finished) :
    Stays s (s.executeReturn sp status) ∨ (s.executeReturn sp status).isAbortReq = true := by
  have slots := stays_modifyCtx (s := s) inside (f := fun c =>
    { c with
      status := status
      doSuspend := false
      doAbort := if status = .aborted then false else c.doAbort }) fun _ => rfl
  have left : Stays s (s.leaveExecute sp status) :=
    ⟨⟨slots.modules.asModule, rfl, rfl, rfl⟩, rfl, slots.program, slots.above⟩
  unfold executeReturn calcCtxAfterExecute
  cases status with
  | finished => exact absurd rfl unfinished
  | exception => exact .inr rfl
  | _ => exact .inl (left.trans (stays_calcCtxReturn _))

theorem stackStep_tick (inv : s.Inv) (runs : s.Runs) : StackStep s s.tick := by
  obtain ⟨stack, placed⟩ := inv.resolve_left runs.1
  cases stands : s.control with
  | idle =>
    rw [tick_idle stands]
    exact .rests
  | fault => exact absurd stands runs.1
  | crash => exact absurd stands runs.2
  | ctxEnter deltaFrame60 =>
    simp only [tick, stands]
    exact stackStep_calcCtxEnter s deltaFrame60
  | boundary =>
    simp only [Placed, stands] at placed
    obtain ⟨sp, rest, running, -, top⟩ := placed
    simp only [tick, stands, running, checkFlags]
    have executed : s.running ≠ [] := by simp [running]
    by_cases quiet : s.isAbortReq = false
    · have returns {status : EContextState} (unfinished : status ≠ .finished) :
          StackStep s (s.executeReturn sp status) :=
        (stays_executeReturn (top quiet).1 unfinished).elim (.stays (.inr executed)) .aborts
      split
      · exact .stays (.inr executed) ⟨⟨fun _ => rfl, rfl, rfl, rfl⟩, rfl, fun _ => rfl, fun _ _ => rfl⟩
      · split
        · exact returns (by decide)
        · exact returns (by decide)
    · have aborting : s.isAbortReq = true := by simpa using quiet
      have asked := stack.stopping aborting sp (by simp [running])
      rw [if_neg (by simp [asked.1]), if_pos asked.2]
      exact .aborts aborting
  | run =>
    simp only [Placed, stands] at placed
    obtain ⟨rest, running, -, quiet⟩ := placed
    have executed : s.running ≠ [] := by simp [running]
    have ticked : s.tick = s.runStatement s.moduleStackIndex := by simp only [tick, stands, running]
    rw [ticked, runStatement]
    cases program : (s.moduleStack s.moduleStackIndex).asCtx.program with
    | done =>
      by_cases whole : (s.executeReturn s.moduleStackIndex .finished).control = .crash
      · exact .ends fun runs => runs.2 whole
      · have first := mt (executeReturn_finished_crash runs.2).mpr whole
        exact .pops running program first (leaves_executeReturn whole)
    | throw => exact .aborts rfl
    | call bind next =>
      rcases (s.setProgram s.moduleStackIndex next).callBind_cases bind with
        ⟨reason, -, aborted⟩ | same | same
      · simp only [aborted]
        exact .aborts rfl
      · exact .calls executed program same.stays
      · have suspended : Stays (s.setProgram s.moduleStackIndex next)
            (s.setProgram s.moduleStackIndex next).trySuspendCtx :=
          stays_modifyCtx (Nat.le_refl _) fun _ => rfl
        exact .calls executed program (suspended.trans same.stays)
    | exec e child next =>
      rcases pushed_cases ((s.setProgram s.moduleStackIndex next).pushed_pushExec e child) with
        ends | aborting | ⟨k, m, enters⟩
      · exact .ends ends
      · exact .aborts aborting
      · exact .pushes executed program enters

/-- A script on the stack: the name of its module, and what it still has to run. -/
structure Loaded where
  name : String
  program : Script

/-- The scripts `stack`, the top first, are in the slots from 0 on, with the engine's modules of
their names. -/
def Holds (s : Sched) : List Loaded → Prop
  | [] => True
  | top :: below =>
    (∃ m, s.getModule top.name = some m ∧ (s.moduleStack below.length).asModule = some m) ∧
      (s.moduleStack below.length).asCtx.program = top.program ∧ s.Holds below

/-- The scripts `stack` are all there is. -/
structure Named (s : Sched) (stack : List Loaded) : Prop where
  index : s.moduleStackIndex = stack.length - 1
  holds : s.Holds stack
  vacant : ∀ i, stack.length ≤ i → i < MAX_MODULE_STACK_DEPTH → Vacant (s.moduleStack i)
  playing : stack = [] → s.running = []

/-- The caller does not have the name, or someone below the caller has it too. -/
def ApartFromCaller (name : String) : List Loaded → Prop
  | [] => True
  | caller :: below => name = caller.name → caller.name ∈ below.map Loaded.name

/-- No pop will discard the module of a caller. -/
def Apart : List Loaded → Prop
  | [] => True
  | top :: below =>
    top.program.CallsOthers (below.map Loaded.name) top.name ∧ ApartFromCaller top.name below ∧
      Apart below

theorem Holds.congr {stack : List Loaded} (holds : s.Holds stack)
    (slots : ∀ i < stack.length, (t.moduleStack i).asModule = (s.moduleStack i).asModule ∧
      (t.moduleStack i).asCtx.program = (s.moduleStack i).asCtx.program)
    (known : ∀ i < stack.length, ∀ name m, (s.moduleStack i).asModule = some m →
      s.getModule name = some m → t.getModule name = some m) : t.Holds stack := by
  induction stack with
  | nil => trivial
  | cons top below ih =>
    obtain ⟨⟨m, found, held⟩, program, rest⟩ := holds
    have own : below.length < (top :: below).length := Nat.lt_succ_self _
    refine ⟨⟨m, known _ own _ m held found, (slots _ own).1.trans held⟩,
      (slots _ own).2.trans program, ih rest (fun i less => ?_) fun i less => ?_⟩
    · exact slots i (Nat.lt_succ_of_lt less)
    · exact known i (Nat.lt_succ_of_lt less)

theorem Holds.slot {stack : List Loaded} (holds : s.Holds stack) {i : Nat} (inside : i < stack.length) :
    ∃ entry ∈ stack, ∃ m, s.getModule entry.name = some m ∧ (s.moduleStack i).asModule = some m := by
  induction stack with
  | nil => exact absurd inside (Nat.not_lt_zero i)
  | cons top below ih =>
    obtain ⟨own, -, rest⟩ := holds
    rcases Nat.lt_succ_iff_lt_or_eq.mp inside with less | same
    · obtain ⟨entry, member, found⟩ := ih rest less
      exact ⟨entry, List.mem_cons_of_mem _ member, found⟩
    · exact ⟨top, List.mem_cons_self, same ▸ own⟩

theorem Holds.mem {stack : List Loaded} (holds : s.Holds stack) {entry : Loaded} (member : entry ∈ stack) :
    ∃ i < stack.length, ∃ m, s.getModule entry.name = some m ∧ (s.moduleStack i).asModule = some m := by
  induction stack with
  | nil => exact absurd member List.not_mem_nil
  | cons top below ih =>
    obtain ⟨own, -, rest⟩ := holds
    rcases List.mem_cons.mp member with rfl | under
    · exact ⟨below.length, Nat.lt_succ_self _, own⟩
    · obtain ⟨i, less, found⟩ := ih rest under
      exact ⟨i, Nat.lt_succ_of_lt less, found⟩

/-- The engine knows a module by one name. -/
theorem EngineOk.name_unique (ok : s.EngineOk) {name other : String} {m : Nat}
    (found : s.getModule name = some m) (same : s.getModule other = some m) : name = other := by
  obtain ⟨_, _, listed, -⟩ := List.lookup_eq_some_iff.mp found
  obtain ⟨_, _, listed', -⟩ := List.lookup_eq_some_iff.mp same
  have entry : (name, m) ∈ s.modules := by simp [listed]
  have entry' : (other, m) ∈ s.modules := by simp [listed']
  exact congrArg Prod.fst (List.inj_on_of_nodup_map ok.distinct entry entry' rfl)

/-- Discarding a module forgets no other one. -/
theorem lookup_filter {modules : List (String × Nat)} {name : String} {m n : Nat}
    (found : modules.lookup name = some n) (other : n ≠ m) :
    (modules.filter fun entry => entry.2 ≠ m).lookup name = some n := by
  obtain ⟨before, after, rfl, missing⟩ := List.lookup_eq_some_iff.mp found
  have kept : (before ++ (name, n) :: after).filter (fun entry => entry.2 ≠ m) =
      before.filter (fun entry => entry.2 ≠ m) ++
        (name, n) :: after.filter (fun entry => entry.2 ≠ m) := by
    rw [List.filter_append, List.filter_cons_of_pos (by simpa using other)]
  exact List.lookup_eq_some_iff.mpr
    ⟨_, _, kept, fun entry member => missing entry (List.mem_of_mem_filter member)⟩

/-- The module of a slot was discarded: its pop, or an abort, discards it again. -/
structure Dangling (s : Sched) : Prop where
  slot : ∃ i ≤ s.moduleStackIndex, ∃ m, (s.moduleStack i).asModule = some m ∧
    m ∈ s.discards.map Discard.asModule ∧ ∀ j < i, (s.moduleStack j).asModule ≠ some m
  bottom : (s.moduleStack 0).asModule ≠ none

theorem Named.top {top : Loaded} {below : List Loaded} (named : s.Named (top :: below)) :
    s.moduleStackIndex = below.length := named.index

theorem Named.program {top : Loaded} {below : List Loaded} (named : s.Named (top :: below)) :
    s.getSP.asCtx.program = top.program := by
  rw [getSP, named.top]
  exact named.holds.2.1

theorem Named.module {top : Loaded} {below : List Loaded} (named : s.Named (top :: below)) :
    ∃ m, s.getModule top.name = some m ∧ s.getSP.asModule = some m := by
  rw [getSP, named.top]
  exact named.holds.1

theorem Named.nonempty {stack : List Loaded} (named : s.Named stack)
    (either : s.getSP.asModule ≠ none ∨ s.running ≠ []) : ∃ top below, stack = top :: below := by
  cases stack with
  | cons top below => exact ⟨top, below, rfl⟩
  | nil =>
    have index : s.moduleStackIndex = 0 := named.index
    rcases either with occupied | executed
    · refine absurd (named.vacant 0 (Nat.zero_le _) (by decide)).1 ?_
      rwa [getSP, index] at occupied
    · exact absurd (named.playing rfl) executed

theorem Named.stays {top : Loaded} {below : List Loaded} (named : s.Named (top :: below))
    (stays : Stays s t) : t.Named (top :: below) := by
  refine ⟨stays.index.trans named.index, named.holds.congr (fun i _ => ⟨stays.modules.asModule i,
    stays.program i⟩) fun i _ name m _ found => ?_, fun i beyond within => ?_, nofun⟩
  · rwa [getModule, stays.modules.modules]
  · have vacant := named.vacant i beyond within
    have above : s.moduleStackIndex < i := named.top ▸ beyond
    exact ⟨(stays.modules.asModule i).trans vacant.1, (stays.above i above).trans vacant.2⟩

/-- The script on top has come to `next`. -/
theorem Named.setProgram {top : Loaded} {below : List Loaded} (named : s.Named (top :: below))
    (next : Script) :
    (s.setProgram s.moduleStackIndex next).Named (⟨top.name, next⟩ :: below) := by
  have index := named.top
  obtain ⟨⟨m, found, held⟩, -, rest⟩ := named.holds
  refine ⟨named.index, ⟨⟨m, found, ?_⟩, ?_, rest.congr (fun i less => ?_) fun _ _ _ _ _ => id⟩,
    fun i beyond within => ?_, nofun⟩
  · simpa [Sched.setProgram, modifyCtx, index] using held
  · simp [Sched.setProgram, modifyCtx, index]
  · have other : i ≠ s.moduleStackIndex := by omega
    simp [Sched.setProgram, modifyCtx, other]
  · have other : i ≠ s.moduleStackIndex := by
      rw [List.length_cons] at beyond
      omega
    simpa [Sched.setProgram, modifyCtx, other] using named.vacant i beyond within

theorem Named.enters {stack : List Loaded} (named : s.Named stack) {name : String} {program : Script}
    {k m : Nat} (room : stack.length < MAX_MODULE_STACK_DEPTH) (enters : Enters s t name program k m) :
    t.Named (⟨name, program⟩ :: stack) := by
  obtain ⟨place, index, found, known, -, asModule, prepared, others⟩ := enters
  obtain rfl : k = stack.length := by
    cases stack with
    | nil =>
      have bottom : s.moduleStackIndex = 0 := named.index
      have empty := (named.vacant 0 (Nat.le_refl _) room).1
      rcases place with ⟨same, -⟩ | ⟨-, occupied, -⟩
      · exact same.trans bottom
      · rw [getSP, bottom] at occupied
        exact absurd empty occupied
    | cons top below =>
      obtain ⟨m, -, held⟩ := named.module
      rcases place with ⟨-, empty⟩ | ⟨above, -⟩
      · cases held.symm.trans empty
      · rw [above, named.top]
        rfl
  refine ⟨index, ⟨⟨m, found, asModule⟩, prepared (named.vacant _ (Nat.le_refl _) room).2,
    named.holds.congr (fun i less => ?_) fun i _ name m _ => known name m⟩,
    fun i beyond within => ?_, nofun⟩
  · have slot := others i (Nat.ne_of_lt less)
    exact ⟨slot.1, slot.2.1⟩
  · have above : stack.length < i := beyond
    have slot := others i (Nat.ne_of_gt above)
    have vacant := named.vacant i (Nat.le_of_lt above) within
    exact ⟨slot.1.trans vacant.1, slot.2.2.trans vacant.2⟩

theorem Leaves.slots {top : Loaded} {below : List Loaded} (named : s.Named (top :: below))
    (leaves : Leaves s t) (i : Nat) (less : i < below.length) :
    (t.moduleStack i).asModule = (s.moduleStack i).asModule ∧
      (t.moduleStack i).asCtx.program = (s.moduleStack i).asCtx.program := by
  have index := named.top
  have other : i ≠ s.moduleStackIndex := by omega
  exact ⟨leaves.asModule i other, by rw [leaves.asCtx i other]⟩

/-- The scripts below stay if the engine still knows their modules. -/
theorem Named.below {top : Loaded} {below : List Loaded} {deeper : List Nat} (inv : s.StackInv)
    (named : s.Named (top :: below)) (running : s.running = s.moduleStackIndex :: deeper)
    (leaves : Leaves s t)
    (known : ∀ i < below.length, ∀ name n, (s.moduleStack i).asModule = some n →
      s.getModule name = some n → t.getModule name = some n) : t.Named below := by
  have index := named.top
  refine ⟨leaves.index.trans (by rw [index]), named.holds.2.2.congr (leaves.slots named) known,
    fun i beyond within => ?_, fun empty => ?_⟩
  · by_cases own : i = s.moduleStackIndex
    · rw [own]
      exact leaves.vacant
    · have vacant := named.vacant i (by rw [List.length_cons]; omega) within
      exact ⟨(leaves.asModule i own).trans vacant.1, by rw [leaves.asCtx i own]; exact vacant.2⟩
  · -- nothing is executed below slot 0
    have nested := inv.nested
    rw [running, index, empty] at nested
    rw [leaves.running, running, List.tail_cons]
    refine List.eq_nil_iff_forall_not_mem.mpr fun i member => ?_
    exact absurd (List.rel_of_pairwise_cons nested member) (Nat.not_lt_zero i)

/-- A pop that discards a module under its caller leaves it dangling there; every other pop
leaves the scripts below as they were. -/
theorem Named.leaves {top : Loaded} {below : List Loaded} {deeper : List Nat} (inv : s.StackInv)
    (ok : s.EngineOk) (named : s.Named (top :: below))
    (running : s.running = s.moduleStackIndex :: deeper) (leaves : Leaves s t) :
    (t.Named below ∧ ApartFromCaller top.name below) ∨
      (t.Dangling ∧ ¬ApartFromCaller top.name below) := by
  have index := named.top
  have slots := leaves.slots named
  obtain ⟨m, found, own⟩ := named.module
  obtain ⟨-, -, rest⟩ := named.holds
  rcases leaves.discarded m own with ⟨⟨i, less, uses⟩, same⟩ | ⟨unused, modules, gone⟩
  · left
    refine ⟨named.below inv running leaves fun i _ name n _ known => by rwa [getModule, same], ?_⟩
    cases below with
    | nil => trivial
    | cons caller deeper =>
      intro sameName
      rw [index] at less
      obtain ⟨entry, member, n, known, holds⟩ := rest.2.2.slot less
      obtain rfl : m = n := Option.some.inj (uses.symm.trans holds)
      rw [← sameName, ok.name_unique found known]
      exact List.mem_map_of_mem member
  · cases below with
    | nil => exact .inl ⟨named.below inv running leaves nofun, trivial⟩
    | cons caller deeper =>
      rw [index] at unused
      obtain ⟨⟨n, known, holds⟩, -, under⟩ := rest
      by_cases shares : n = m
      · subst shares
        have sameName := ok.name_unique found known
        refine .inr ⟨⟨⟨deeper.length, ?_, n, ?_, gone, fun j less => ?_⟩, ?_⟩, fun apart => ?_⟩
        · rw [leaves.index, index]
          exact Nat.le_refl _
        · exact (slots _ (Nat.lt_succ_self _)).1.trans holds
        · rw [(slots j (Nat.lt_succ_of_lt less)).1]
          exact unused j less
        · obtain ⟨_, _, _, _, bottom⟩ := named.holds.2.2.slot (Nat.succ_pos deeper.length)
          rw [(slots 0 (Nat.succ_pos _)).1, bottom]
          exact Option.some_ne_none _
        · -- a script further down with the name would have the module too
          obtain ⟨entry, member, same⟩ := List.mem_map.mp (apart sameName)
          obtain ⟨j, less, n', found', uses⟩ := under.mem member
          rw [same, known] at found'
          exact unused j less (Option.some.inj found' ▸ uses)
      · left
        refine ⟨named.below inv running leaves fun i less name n' uses known' => ?_, fun sameName => ?_⟩
        · have other : n' ≠ m := by
            rintro rfl
            rcases Nat.lt_succ_iff_lt_or_eq.mp less with further | parent
            · exact unused i further uses
            · rw [parent, holds] at uses
              exact shares (Option.some.inj uses)
          rw [getModule, modules]
          exact lookup_filter known' other
        · rw [sameName, known] at found
          exact absurd (Option.some.inj found) shares

/-- Under a discarded module every tick leaves it there, aborts, or ends the run. -/
theorem Dangling.stackStep (dangling : s.Dangling) (step : StackStep s t) :
    ¬t.Runs ∨ t.isAbortReq = true ∨ t.Dangling := by
  obtain ⟨⟨i, under, m, holds, gone, first⟩, bottom⟩ := dangling
  -- what keeps the slots up to the dangling one and forgets no discard
  have kept (above : i ≤ t.moduleStackIndex)
      (slots : ∀ j, j ≤ i ∨ j = 0 → (t.moduleStack j).asModule = (s.moduleStack j).asModule)
      (discards : ∀ n ∈ s.discards.map Discard.asModule, n ∈ t.discards.map Discard.asModule) :
      t.Dangling := by
    refine ⟨⟨i, above, m, (slots i (.inl (Nat.le_refl i))).trans holds, discards m gone,
      fun j less => ?_⟩, ?_⟩
    · rw [slots j (.inl (Nat.le_of_lt less))]
      exact first j less
    · rwa [slots 0 (.inr rfl)]
  cases step with
  | ends over_ => exact .inl over_
  | aborts aborting => exact .inr (.inl aborting)
  | rests => exact .inr (.inr ⟨⟨i, under, m, holds, gone, first⟩, bottom⟩)
  | stays _ same =>
    exact .inr (.inr (kept (same.index ▸ under) (fun j _ => same.modules.asModule j)
      fun n member => same.modules.discards ▸ member))
  | calls _ _ same =>
    have modules := (s.sameModules_setProgram _ _).trans same.modules
    exact .inr (.inr (kept (same.index ▸ under) (fun j _ => modules.asModule j)
      fun n member => modules.discards ▸ member))
  | @pushes _ _ _ next k _ _ _ enters =>
    have same := s.sameModules_setProgram s.moduleStackIndex next
    have place : (k = s.moduleStackIndex ∧ s.getSP.asModule = none) ∨ k = s.moduleStackIndex + 1 :=
      enters.place.imp (fun top => ⟨top.1, (same.asModule _).symm.trans top.2⟩) fun above => above.1
    have beyond : i ≤ k ∧ ∀ j, j ≤ i ∨ j = 0 → j ≠ k := by
      rcases place with ⟨rfl, empty⟩ | rfl
      · refine ⟨under, fun j near own => ?_⟩
        subst own
        rcases near with below | zero
        · rw [getSP, ← Nat.le_antisymm under below, holds] at empty
          cases empty
        · rw [getSP, zero] at empty
          exact bottom empty
      · exact ⟨Nat.le_succ_of_le under, fun j near own => by omega⟩
    refine .inr (.inr (kept (enters.index ▸ beyond.1) (fun j near => ?_) fun n member => ?_))
    · exact (enters.others j (beyond.2 j near)).1.trans (same.asModule j)
    · rwa [enters.discards]
  | pops _ _ once leaves =>
    -- the pop of the slot itself would crash
    have lower : i ≠ s.moduleStackIndex := by
      rintro rfl
      exact once ⟨m, holds, fun j less => first j (by omega), gone⟩
    have index := leaves.index
    refine .inr (.inr (kept (by omega) (fun j near => leaves.asModule j (by omega)) leaves.discards))

/-- Under a known stack a tick keeps the scripts as far apart as they are, aborts, ends the
run, or leaves a module dangling where they are not apart. -/
theorem Named.stackStep {stack : List Loaded} (inv : s.StackInv) (ok : s.EngineOk)
    (named : s.Named stack) (step : StackStep s t) :
    ¬t.Runs ∨ t.isAbortReq = true ∨ (∃ next, t.Named next ∧ (Apart next ↔ Apart stack)) ∨
      (t.Dangling ∧ ¬Apart stack) := by
  cases step with
  | ends over_ => exact .inl over_
  | aborts aborting => exact .inr (.inl aborting)
  | rests => exact .inr (.inr (.inl ⟨stack, named, Iff.rfl⟩))
  | stays either same =>
    obtain ⟨top, below, rfl⟩ := named.nonempty either
    exact .inr (.inr (.inl ⟨_, named.stays same, Iff.rfl⟩))
  | @calls _ bind next executed program same =>
    obtain ⟨top, below, rfl⟩ := named.nonempty (.inr executed)
    have runs : top.program = .call bind next := named.program.symm.trans program
    refine .inr (.inr (.inl ⟨_, (named.setProgram next).stays same, ?_⟩))
    simp only [Apart, runs, Script.CallsOthers]
  | @pushes _ e child next k m executed program enters =>
    obtain ⟨top, below, rfl⟩ := named.nonempty (.inr executed)
    have runs : top.program = .exec e child next := named.program.symm.trans program
    have room : (top :: below).length < MAX_MODULE_STACK_DEPTH := by
      obtain ⟨n, -, held⟩ := named.module
      have same := s.sameModules_setProgram s.moduleStackIndex next
      rcases enters.place with ⟨-, empty⟩ | ⟨above, -, inside⟩
      · exact absurd (held.symm.trans ((same.asModule _).symm.trans empty)) (by simp)
      · have index : k = s.moduleStackIndex + 1 := above
        rw [index, named.top] at inside
        exact inside
    refine .inr (.inr (.inl ⟨_, (named.setProgram next).enters room enters, ?_⟩))
    simp only [Apart, runs, Script.CallsOthers, ApartFromCaller, List.map_cons]
    rw [eq_comm (a := e.bind.target.name)]
    tauto
  | @pops _ rest running program _ leaves =>
    obtain ⟨top, below, rfl⟩ := named.nonempty (.inr (by simp [running]))
    have runs : top.program = .done := named.program.symm.trans program
    rcases named.leaves inv ok running leaves with ⟨remains, apart⟩ | ⟨dangling, close⟩
    · refine .inr (.inr (.inl ⟨below, remains, ?_⟩))
      simp only [Apart, runs, Script.CallsOthers, true_and, apart]
    · exact .inr (.inr (.inr ⟨dangling, fun apart => close apart.2.1⟩))

/-- Nothing on the stack will be discarded twice, or an abort or a fault ends it all anyway. -/
structure Tidy (s : Sched) : Prop where
  inv : s.Inv
  engine : s.EngineOk
  whole : s.control ≠ .crash
  apart : s.control = .fault ∨ s.isAbortReq = true ∨ ∃ stack, s.Named stack ∧ Apart stack

/-- Nothing will come to its end: the run is over, aborts, or has a module to discard twice. -/
def Doomed (s : Sched) : Prop :=
  ¬s.Runs ∨ s.isAbortReq = true ∨ s.Dangling ∨ ∃ stack, s.Named stack ∧ ¬Apart stack

theorem Named.discards_once {stack : List Loaded} (engine : s.EngineOk) (named : s.Named stack)
    (executed : s.running ≠ []) : ¬s.DiscardsAgain := by
  rintro ⟨-, m, held, -, gone⟩
  obtain ⟨top, below, rfl⟩ := named.nonempty (.inr executed)
  obtain ⟨n, found, holds⟩ := named.module
  rw [holds] at held
  exact (engine.live (Option.some.inj held ▸ found)).2 gone

theorem Tidy.tick (tidy : s.Tidy) : s.tick.Tidy := by
  obtain ⟨inv, engine, whole, apart⟩ := tidy
  by_cases runs : s.Runs
  · have once : ¬s.DiscardsAgain := by
      intro again
      rcases apart with broken | aborting | ⟨stack, named, -⟩
      · exact runs.1 broken
      · exact (aborting_tick inv aborting).2 again.1.1
      · obtain ⟨rest, running, -⟩ : ∃ rest, s.running = s.moduleStackIndex :: rest ∧ _ := by
          have placed := (inv.resolve_left runs.1).2
          simpa only [Placed, again.1.1] using placed
        exact named.discards_once engine (by simp [running]) again
    have next := (tick_crash_iff inv runs).not.mpr once
    refine ⟨inv_tick inv, engine.tick inv, next, ?_⟩
    rcases apart with broken | aborting | ⟨stack, named, apart⟩
    · exact absurd broken runs.1
    · exact .inr (.inl (aborting_tick inv aborting).1)
    · rcases named.stackStep (inv.resolve_left runs.1).1 engine (stackStep_tick inv runs) with
        over_ | aborting | ⟨later, named', same⟩ | ⟨-, close⟩
      · exact .inl (by_contra fun other => over_ ⟨other, next⟩)
      · exact .inr (.inl aborting)
      · exact .inr (.inr ⟨later, named', same.mpr apart⟩)
      · exact absurd apart close
  · have fault : s.control = .fault := by_contra fun other => runs ⟨other, whole⟩
    rw [tick_of_not_runs runs]
    exact ⟨inv, engine, whole, .inl fault⟩

theorem Tidy.leads (tidy : s.Tidy) (leads : Leads Sched.tick s t) : t.Tidy := by
  obtain ⟨n, rfl⟩ := leads
  induction n generalizing s with
  | zero => exact tidy
  | succ n ih => exact ih tidy.tick

/-- No frame of a tidy scheduler crashes. -/
theorem Tidy.whole_run (tidy : s.Tidy) : s.Whole := fun n => (tidy.leads ⟨n, rfl⟩).whole

/-- The next call of `calcCtx`, with whatever pauses are in force by then. -/
theorem Named.frame {stack : List Loaded} (named : s.Named stack) (deltaFrame60 : Nat)
    (counts : Nat → Int) (targets : Nat → Bool) :
    Named { s with
      pauseRequestCount := counts
      targetPaused := targets
      control := .ctxEnter deltaFrame60 } stack :=
  ⟨named.index, named.holds.congr (fun _ _ => ⟨rfl, rfl⟩) fun _ _ _ _ _ => id, named.vacant,
    named.playing⟩

theorem Tidy.frame (tidy : s.Tidy) (stands : s.control = .idle) (deltaFrame60 : Nat)
    (counts : Nat → Int) (targets : Nat → Bool) :
    Tidy { s with
      pauseRequestCount := counts
      targetPaused := targets
      control := .ctxEnter deltaFrame60 } := by
  obtain ⟨inv, engine, -, apart⟩ := tidy
  obtain ⟨stack, placed⟩ := inv.resolve_left (by simp [stands])
  simp only [Placed, stands] at placed
  refine ⟨.inr ⟨⟨stack.index_lt, stack.active, stack.within, stack.nested, stack.above,
    stack.stopping⟩, ?_⟩, engine.congr ⟨fun _ => rfl, rfl, rfl, rfl⟩, Control.noConfusion, ?_⟩
  · intro i member
    rw [show _ = [] from placed] at member
    exact absurd member List.not_mem_nil
  · rcases apart with broken | aborting | ⟨stack, named, apart⟩
    · exact absurd (broken.symm.trans stands) Control.noConfusion
    · exact .inr (.inl aborting)
    · exact .inr (.inr ⟨stack, named.frame deltaFrame60 counts targets, apart⟩)

theorem Tidy.congr (tidy : s.Tidy) (same : SameScripts s t) : t.Tidy := by
  obtain ⟨inv, engine, whole, apart⟩ := tidy
  refine ⟨?_, engine.congr same.modules_same, same.control ▸ whole, ?_⟩
  · rcases inv with broken | ⟨stack, placed⟩
    · exact .inl (same.control.trans broken)
    · refine .inr ⟨stack.congr same, ?_⟩
      simpa only [Placed, AtBoundary, Waiting, same.control, same.running, same.asCtx,
        same.isAbortReq, same.moduleStackIndex] using placed
  · rcases apart with broken | aborting | ⟨stack, named, apart⟩
    · exact .inl (same.control.trans broken)
    · exact .inr (.inl (same.isAbortReq.trans aborting))
    · refine .inr (.inr ⟨stack, ⟨same.moduleStackIndex.trans named.index, named.holds.congr
        (fun i _ => ⟨same.asModule i, by rw [same.asCtx]⟩) fun _ _ name m _ found => ?_,
        fun i beyond within => ?_, fun empty => same.running.trans (named.playing empty)⟩, apart⟩)
      · rwa [getModule, same.modules]
      · have vacant := named.vacant i beyond within
        exact ⟨(same.asModule i).trans vacant.1, by rw [same.asCtx]; exact vacant.2⟩

theorem Doomed.tick (inv : s.Inv) (engine : s.EngineOk) (doomed : s.Doomed) : s.tick.Doomed := by
  by_cases runs : s.Runs
  · have step := stackStep_tick inv runs
    rcases doomed with over_ | aborting | dangling | ⟨stack, named, close⟩
    · exact absurd runs over_
    · exact .inr (.inl (aborting_tick inv aborting).1)
    · exact (dangling.stackStep step).imp_right fun next => next.imp_right .inl
    · rcases named.stackStep (inv.resolve_left runs.1).1 engine step with
        over_ | aborting | ⟨later, named', same⟩ | ⟨dangling, -⟩
      · exact .inl over_
      · exact .inr (.inl aborting)
      · exact .inr (.inr (.inr ⟨later, named', same.not.mpr close⟩))
      · exact .inr (.inr (.inl dangling))
  · rwa [tick_of_not_runs runs]

theorem Doomed.leads (inv : s.Inv) (engine : s.EngineOk) (doomed : s.Doomed)
    (leads : Leads Sched.tick s t) : t.Inv ∧ t.EngineOk ∧ t.Doomed := by
  obtain ⟨n, rfl⟩ := leads
  induction n generalizing s with
  | zero => exact ⟨inv, engine, doomed⟩
  | succ n ih => exact ih (inv_tick inv) (engine.tick inv) (doomed.tick inv engine)

theorem Doomed.frame (doomed : s.Doomed) (stands : s.control = .idle) (deltaFrame60 : Nat)
    (counts : Nat → Int) (targets : Nat → Bool) :
    Doomed { s with
      pauseRequestCount := counts
      targetPaused := targets
      control := .ctxEnter deltaFrame60 } := by
  rcases doomed with over_ | aborting | dangling | ⟨stack, named, close⟩
  · exact absurd (by simp [Runs, stands]) over_
  · exact .inr (.inl aborting)
  · exact .inr (.inr (.inl ⟨dangling.slot, dangling.bottom⟩))
  · exact .inr (.inr (.inr ⟨stack, named.frame deltaFrame60 counts targets, close⟩))

/-- Nothing doomed ends with an empty stack and no abort. -/
theorem Doomed.not_done (doomed : s.Doomed) (runs : s.Runs) (quiet : s.isAbortReq = false) :
    (s.moduleStack 0).asModule ≠ none := by
  rcases doomed with over_ | aborting | dangling | ⟨stack, named, close⟩
  · exact absurd runs over_
  · exact absurd (quiet.symm.trans aborting) (by decide)
  · exact dangling.bottom
  · cases stack with
    | nil => exact absurd trivial close
    | cons top below =>
      obtain ⟨_, _, _, _, bottom⟩ := named.holds.slot (Nat.succ_pos below.length)
      rw [bottom]
      exact Option.some_ne_none _

end Sched

end LotusKit.Schedule

import LotusKit.Schedule.Frame

/-! What holds of the scheduler's stack in every state. A context is active exactly while
its slot is being executed; the executed slots are nested, each below the one it pushed;
every one of them but the innermost has been asked to suspend; and while no abort is
pending there is no script above the top of the stack. -/

namespace LotusKit.Schedule
open LotusKit.Lib.Transition

namespace Sched

/-- The part that every function keeps, whatever the program counter. -/
structure StackInv (s : Sched) : Prop where
  index_lt : s.moduleStackIndex < MAX_MODULE_STACK_DEPTH
  active : ∀ i, (s.moduleStack i).asCtx.status = .active ↔ i ∈ s.running
  within : ∀ i ∈ s.running, i < MAX_MODULE_STACK_DEPTH
  nested : s.running.Pairwise (· > ·)
  above : s.isAbortReq = false → ∀ i, s.moduleStackIndex < i → i < MAX_MODULE_STACK_DEPTH →
    (s.moduleStack i).asModule = none
  stopping : s.isAbortReq = true → ∀ i ∈ s.running,
    (s.moduleStack i).asCtx.doSuspend = true ∧ (s.moduleStack i).asCtx.doAbort = true

/-- Every script being executed stops at its next statement boundary, and none of them
is above the top. -/
def Waiting (s : Sched) (slots : List Nat) : Prop :=
  ∀ i ∈ slots, (s.moduleStack i).asCtx.doSuspend = true ∧
    (s.isAbortReq = false → i ≤ s.moduleStackIndex)

/-- The innermost script being executed, between two statements. It has been asked to
suspend unless it is on top. -/
def AtBoundary (s : Sched) : Prop :=
  ∃ sp rest, s.running = sp :: rest ∧ s.Waiting rest ∧
    (s.isAbortReq = false → sp ≤ s.moduleStackIndex ∧
      (sp < s.moduleStackIndex → (s.moduleStack sp).asCtx.doSuspend = true))

/-- Where the program counter may stand with which contexts on the C++ stack. -/
def Placed (s : Sched) : Prop :=
  match s.control with
  | .idle => s.running = []
  | .ctxEnter _ => s.Waiting s.running
  | .boundary => s.AtBoundary
  | .run => ∃ rest, s.running = s.moduleStackIndex :: rest ∧ s.Waiting rest ∧
      s.isAbortReq = false
  | .fault => True
  | .crash => True

/-- An access outside `moduleStack` is the end of a run: nothing is said beyond it. -/
def Inv (s : Sched) : Prop := s.control = .fault ∨ (s.StackInv ∧ s.Placed)

variable {s t : Sched}

theorem StackInv.congr (inv : s.StackInv) (same : SameScripts s t) : t.StackInv := by
  obtain ⟨index_lt, active, within, nested, above, stopping⟩ := inv
  constructor <;> simp only [same.asModule, same.asCtx, same.moduleStackIndex, same.running,
    same.isAbortReq] <;> assumption

theorem Waiting.congr {slots : List Nat} (waiting : s.Waiting slots) (same : SameScripts s t) :
    t.Waiting slots := by
  simpa only [Waiting, same.asCtx, same.isAbortReq, same.moduleStackIndex] using waiting

theorem Waiting.running_congr (waiting : s.Waiting s.running) (same : SameScripts s t) :
    t.Waiting t.running := by
  rw [same.running]
  exact waiting.congr same

theorem Waiting.tail {sp : Nat} {rest : List Nat} (waiting : s.Waiting (sp :: rest)) :
    s.Waiting rest :=
  fun i member => waiting i (List.mem_cons_of_mem _ member)

theorem not_mem_of_nested {sp : Nat} {rest : List Nat} (nested : (sp :: rest).Pairwise (· > ·)) :
    sp ∉ rest := fun member => absurd (List.rel_of_pairwise_cons nested member) (by omega)

/-- Changing the context of one slot while keeping whether it is active and the flags
that are up. -/
theorem StackInv.modifyCtx (inv : s.StackInv) (i : Nat) (f : ScriptContext → ScriptContext)
    (active : (f (s.moduleStack i).asCtx).status = .active ↔
      (s.moduleStack i).asCtx.status = .active)
    (flags : i ∈ s.running → s.isAbortReq = true →
      (f (s.moduleStack i).asCtx).doSuspend = true ∧ (f (s.moduleStack i).asCtx).doAbort = true) :
    (s.modifyCtx i f).StackInv := by
  refine ⟨inv.index_lt, fun j => ?_, inv.within, inv.nested, fun quiet j => ?_, fun aborting j => ?_⟩
  · by_cases same : j = i
    · subst same
      simpa [Sched.modifyCtx, active] using inv.active j
    · simpa [Sched.modifyCtx, same] using inv.active j
  · have empty := inv.above quiet j
    by_cases same : j = i
    · subst same
      simpa [Sched.modifyCtx] using empty
    · simpa [Sched.modifyCtx, same] using empty
  · intro member
    by_cases same : j = i
    · subst same
      simpa [Sched.modifyCtx] using flags member aborting
    · simpa [Sched.modifyCtx, same] using inv.stopping aborting j member

theorem StackInv.trySuspendCtx (inv : s.StackInv) : s.trySuspendCtx.StackInv :=
  inv.modifyCtx _ _ Iff.rfl fun member aborting =>
    ⟨rfl, (inv.stopping aborting _ member).2⟩

theorem Waiting.trySuspendCtx {slots : List Nat} (waiting : s.Waiting slots) :
    s.trySuspendCtx.Waiting slots := by
  intro i member
  refine ⟨?_, (waiting i member).2⟩
  by_cases same : i = s.moduleStackIndex
  · simp [Sched.trySuspendCtx, modifyCtx, same, ScriptContext.suspend]
  · simpa [Sched.trySuspendCtx, modifyCtx, same] using (waiting i member).1

/-- An abort request leaves every running script waiting, whatever is above the top. -/
theorem stackInv_abortStackReq (index_lt : s.moduleStackIndex < MAX_MODULE_STACK_DEPTH)
    (active : ∀ i, (s.moduleStack i).asCtx.status = .active ↔ i ∈ s.running)
    (within : ∀ i ∈ s.running, i < MAX_MODULE_STACK_DEPTH) (nested : s.running.Pairwise (· > ·))
    (reason : String) :
    (s.abortStackReq reason).StackInv ∧ (s.abortStackReq reason).Waiting s.running := by
  have slot (i : Nat) : (((s.abortStackReq reason).moduleStack i).asCtx.status = .active ↔
        (s.moduleStack i).asCtx.status = .active) ∧
      (i < MAX_MODULE_STACK_DEPTH →
        ((s.abortStackReq reason).moduleStack i).asCtx.doSuspend = true ∧
        ((s.abortStackReq reason).moduleStack i).asCtx.doAbort = true) := by
    by_cases inside : i < MAX_MODULE_STACK_DEPTH
    · have kept := (s.moduleStack i).asCtx.abort_active
      simpa [Sched.abortStackReq, emit, inside, ScriptContext.abort] using kept
    · simp [Sched.abortStackReq, emit, inside]
  have stops : (s.abortStackReq reason).isAbortReq ≠ false := Bool.noConfusion
  have waiting : (s.abortStackReq reason).Waiting s.running := fun i member =>
    ⟨((slot i).2 (within i member)).1, fun quiet => absurd quiet stops⟩
  exact ⟨⟨index_lt, fun i => (slot i).1.trans (active i), within, nested,
    fun quiet => absurd quiet stops, fun _ i member => (slot i).2 (within i member)⟩, waiting⟩

theorem StackInv.abortStackReq (inv : s.StackInv) (reason : String) :
    (s.abortStackReq reason).StackInv ∧ (s.abortStackReq reason).Waiting s.running :=
  stackInv_abortStackReq inv.index_lt inv.active inv.within inv.nested reason

/-- `calcCtx` returns to whoever called it. -/
theorem inv_calcCtxReturn (inv : s.StackInv) (waiting : s.Waiting s.running)
    (isCompleteOrFail : Bool) : (s.calcCtxReturn isCompleteOrFail).Inv := by
  refine .inr ⟨⟨inv.index_lt, inv.active, inv.within, inv.nested, inv.above, inv.stopping⟩, ?_⟩
  cases running : s.running with
  | nil => simp [calcCtxReturn, Placed, running]
  | cons sp rest =>
    rw [running] at waiting
    have top := waiting sp List.mem_cons_self
    have stands : (s.calcCtxReturn isCompleteOrFail).control = .boundary := by
      simp [calcCtxReturn, running]
    simp only [Placed, stands]
    exact ⟨sp, rest, running, waiting.tail, fun quiet => ⟨top.2 quiet, fun _ => top.1⟩⟩

theorem inv_abort_calcCtxReturn (inv : s.StackInv) (reason : String) (isCompleteOrFail : Bool) :
    ((s.abortStackReq reason).calcCtxReturn isCompleteOrFail).Inv :=
  inv_calcCtxReturn (inv.abortStackReq reason).1 (inv.abortStackReq reason).2 _

theorem isValidForExecution_iff : s.isValidForExecution = true ↔
    s.isAbortReq = false ∧ s.getSP.asModule ≠ none ∧
      (s.getSP.asCtx.status = .suspended ∨ s.getSP.asCtx.status = .prepared) := by
  simp [isValidForExecution]

theorem inv_beginExecute (inv : s.StackInv) (waiting : s.Waiting s.running)
    (quiet : s.isAbortReq = false) (inactive : s.getSP.asCtx.status ≠ .active) :
    s.beginExecute.Inv := by
  have fresh : s.moduleStackIndex ∉ s.running := mt (inv.active _).mpr inactive
  have below (i : Nat) (member : i ∈ s.running) : i < s.moduleStackIndex := by
    have different : i ≠ s.moduleStackIndex := fun same => fresh (same ▸ member)
    have := (waiting i member).2 quiet
    omega
  refine .inr ⟨⟨inv.index_lt, fun i => ?_, ?_, ?_, fun _ i beyond inside => ?_, fun aborting => ?_⟩,
    s.moduleStackIndex, s.running, rfl, fun i member => ?_, fun _ => ⟨Nat.le_refl _, fun less => ?_⟩⟩
  · by_cases same : i = s.moduleStackIndex
    · simp [beginExecute, emit, modifyCtx, same]
    · simpa [beginExecute, emit, modifyCtx, same] using inv.active i
  · simpa [beginExecute] using ⟨inv.index_lt, inv.within⟩
  · exact List.pairwise_cons.mpr ⟨below, inv.nested⟩
  · have different : i ≠ s.moduleStackIndex := by
      have : s.moduleStackIndex < i := beyond
      omega
    simpa [beginExecute, emit, modifyCtx, different] using inv.above quiet i beyond inside
  · exact absurd (quiet.symm.trans aborting) (by decide)
  · have different : i ≠ s.moduleStackIndex := by
      have := below i member
      omega
    simpa [beginExecute, emit, modifyCtx, different] using waiting i member
  · exact absurd less (Nat.lt_irrefl _)

theorem inv_calcCtxEnter (inv : s.StackInv) (waiting : s.Waiting s.running) (deltaFrame60 : Nat) :
    (s.calcCtxEnter deltaFrame60).Inv := by
  simp only [calcCtxEnter]
  by_cases invalid : s.isValidForExecution = false
  · simp only [if_pos invalid]
    exact inv_abort_calcCtxReturn inv _ _
  · simp only [if_neg invalid]
    have valid := isValidForExecution_iff.mp (by simpa using invalid)
    have asked := s.sameScripts_isBlockedFromScheduling
    generalize s.isBlockedFromScheduling = answer at asked ⊢
    obtain ⟨isBlocked, u⟩ := answer
    simp only at asked ⊢
    have charged := sameScripts_calcConsumeFrametime u deltaFrame60
    generalize u.calcConsumeFrametime_queryIsInputExhausted deltaFrame60 = answer at charged ⊢
    obtain ⟨isInputExhausted, v⟩ := answer
    simp only at charged ⊢
    split
    · exact inv_calcCtxReturn (inv.congr asked) (waiting.running_congr asked) _
    · have same := asked.trans charged
      have inv' := inv.congr same
      have waiting' := waiting.running_congr same
      split
      · exact inv_calcCtxReturn inv' waiting' _
      · refine inv_beginExecute ⟨inv'.index_lt, inv'.active, inv'.within, inv'.nested, inv'.above,
          inv'.stopping⟩ waiting' (same.isAbortReq.trans valid.1) ?_
        have kept : (v.moduleStack v.moduleStackIndex).asCtx = s.getSP.asCtx := by
          rw [same.moduleStackIndex, same.asCtx]
        simp only [getSP, kept]
        rcases valid.2.2 with status | status <;> rw [status] <;> decide

/-- The innermost script leaves the C++ stack. -/
theorem StackInv.leaveExecute {sp : Nat} {rest : List Nat} (inv : s.StackInv)
    (running : s.running = sp :: rest) {status : EContextState} (stopped : status ≠ .active) :
    (s.leaveExecute sp status).StackInv := by
  have nested := inv.nested
  rw [running] at nested
  have gone := not_mem_of_nested nested
  refine ⟨inv.index_lt, fun i => ?_, fun i member => inv.within i (List.mem_of_mem_tail member),
    ?_, fun quiet i beyond inside => ?_, fun aborting i member => ?_⟩
  · by_cases same : i = sp
    · simp [Sched.leaveExecute, Sched.modifyCtx, running, same, gone, stopped]
    · have active := inv.active i
      rw [running] at active
      simpa [Sched.leaveExecute, Sched.modifyCtx, running, same] using active
  · simpa [Sched.leaveExecute, Sched.modifyCtx, running] using List.Pairwise.of_cons nested
  · have empty := inv.above quiet i beyond inside
    by_cases same : i = sp
    · subst same
      simpa [Sched.leaveExecute, Sched.modifyCtx] using empty
    · simpa [Sched.leaveExecute, Sched.modifyCtx, same] using empty
  · have member' : i ∈ rest := by
      simpa [Sched.leaveExecute, Sched.modifyCtx, running] using member
    have different : i ≠ sp := fun same => gone (same ▸ member')
    simpa [Sched.leaveExecute, Sched.modifyCtx, different] using
      inv.stopping aborting i (running ▸ List.mem_cons_of_mem _ member')

theorem Waiting.leaveExecute {sp : Nat} {rest : List Nat} (waiting : s.Waiting rest)
    (other : sp ∉ rest) (status : EContextState) : (s.leaveExecute sp status).Waiting rest := by
  intro i member
  have different : i ≠ sp := fun same => other (same ▸ member)
  simpa [Sched.leaveExecute, Sched.modifyCtx, different] using waiting i member

theorem Waiting.modifyCtx {slots : List Nat} (waiting : s.Waiting slots) {i : Nat}
    (f : ScriptContext → ScriptContext) (other : i ∉ slots) : (s.modifyCtx i f).Waiting slots := by
  intro j member
  have different : j ≠ i := fun same => other (same ▸ member)
  simpa [Sched.modifyCtx, different] using waiting j member

/-- A module leaves its slot. -/
theorem StackInv.setModule_none (inv : s.StackInv) (i : Nat) : (s.setModule i none).StackInv := by
  refine ⟨inv.index_lt, fun j => ?_, inv.within, inv.nested, fun quiet j beyond inside => ?_,
    fun aborting j member => ?_⟩
  · by_cases same : j = i
    · subst same
      simpa [setModule] using inv.active j
    · simpa [setModule, same] using inv.active j
  · by_cases same : j = i
    · simp [setModule, same]
    · simpa [setModule, same] using inv.above quiet j beyond inside
  · by_cases same : j = i
    · subst same
      simpa [setModule] using inv.stopping aborting j member
    · simpa [setModule, same] using inv.stopping aborting j member

theorem asCtx_setModule {m : Option Nat} {i j : Nat} :
    ((s.setModule i m).moduleStack j).asCtx = (s.moduleStack j).asCtx := by
  by_cases same : j = i <;> simp [setModule, same]

/-- What a pop does to the stack: the top loses its module. -/
theorem tryDiscardLastModuleForPop_stack : ∃ modules discards control,
    s.tryDiscardLastModuleForPop =
      { s.setModule s.moduleStackIndex none with
        modules := modules
        discards := discards
        control := control } := by
  cases holds : s.getSP.asModule with
  | none =>
    refine ⟨s.modules, s.discards, s.control, ?_⟩
    have same : s.setModule s.moduleStackIndex none = s := by
      have slot : { s.getSP with asModule := none } = s.getSP := by rw [← holds]
      simp only [setModule, modifySlot, slot, Function.update_eq_self]
    simp only [tryDiscardLastModuleForPop, holds, same]
  | some m =>
    simp only [tryDiscardLastModuleForPop, holds]
    split
    · exact ⟨_, _, _, rfl⟩
    · exact ⟨_, _, _, rfl⟩

@[simp] theorem tryDiscardLastModuleForPop_index :
    s.tryDiscardLastModuleForPop.moduleStackIndex = s.moduleStackIndex := by
  obtain ⟨_, _, _, popped⟩ := tryDiscardLastModuleForPop_stack (s := s)
  rw [popped]
  rfl

@[simp] theorem tryDiscardLastModuleForPop_running :
    s.tryDiscardLastModuleForPop.running = s.running := by
  obtain ⟨_, _, _, popped⟩ := tryDiscardLastModuleForPop_stack (s := s)
  rw [popped]
  rfl

@[simp] theorem tryDiscardLastModuleForPop_isPlaybackActive :
    s.tryDiscardLastModuleForPop.isPlaybackActive = s.isPlaybackActive := by
  obtain ⟨_, _, _, popped⟩ := tryDiscardLastModuleForPop_stack (s := s)
  rw [popped]
  rfl

theorem tryDiscardLastModuleForPop_top :
    (s.tryDiscardLastModuleForPop.moduleStack s.moduleStackIndex).asModule = none := by
  obtain ⟨_, _, _, popped⟩ := tryDiscardLastModuleForPop_stack (s := s)
  rw [popped]
  simp [setModule]

theorem StackInv.tryDiscardLastModuleForPop (inv : s.StackInv) :
    s.tryDiscardLastModuleForPop.StackInv := by
  obtain ⟨_, _, _, popped⟩ := tryDiscardLastModuleForPop_stack (s := s)
  have kept := inv.setModule_none s.moduleStackIndex
  rw [popped]
  exact ⟨kept.index_lt, kept.active, kept.within, kept.nested, kept.above, kept.stopping⟩

theorem Waiting.tryDiscardLastModuleForPop {slots : List Nat} (waiting : s.Waiting slots) :
    s.tryDiscardLastModuleForPop.Waiting slots := by
  obtain ⟨_, _, _, popped⟩ := tryDiscardLastModuleForPop_stack (s := s)
  rw [popped]
  intro i member
  exact ⟨(congrArg ScriptContext.doSuspend asCtx_setModule).trans (waiting i member).1,
    (waiting i member).2⟩

theorem sameScripts_inheritOnPop (s : Sched) : SameScripts s (s.inheritOnPop s.moduleStackIndex) := by
  unfold inheritOnPop
  split
  · exact s.sameScripts_modifyState _ (Nat.lt_of_le_of_lt (Nat.sub_le _ 1)) _
  · exact .refl s

/-- The pop itself: the slot below becomes the top, and is looked at next. -/
theorem inv_popTo (inv : s.StackInv) (waiting : s.Waiting s.running)
    (below : ∀ i ∈ s.running, i < s.moduleStackIndex)
    (empty : s.getSP.asModule = none) :
    ({ s with moduleStackIndex := s.moduleStackIndex - 1, control := .ctxEnter 0 }).Inv := by
  refine .inr ⟨⟨?_, inv.active, inv.within, inv.nested, fun quiet i beyond inside => ?_,
    inv.stopping⟩, fun i member => ⟨(waiting i member).1, fun _ => ?_⟩⟩
  · have := inv.index_lt
    show s.moduleStackIndex - 1 < MAX_MODULE_STACK_DEPTH
    omega
  · rcases Nat.lt_trichotomy i s.moduleStackIndex with before | same | after
    · have : s.moduleStackIndex - 1 < i := beyond
      omega
    · subst same
      exact empty
    · exact inv.above quiet i after inside
  · have := below i member
    show i ≤ s.moduleStackIndex - 1
    omega

/-- A finished script is popped; the one below, if any, is looked at next. -/
theorem inv_calcCtxAfterExecute_finished (inv : s.StackInv) (waiting : s.Waiting s.running)
    (below : ∀ i ∈ s.running, i < s.moduleStackIndex) :
    (s.calcCtxAfterExecute s.moduleStackIndex .finished).Inv := by
  have gone : s.moduleStackIndex ∉ s.running := fun member => absurd (below _ member) (by omega)
  have invPopped := (inv.modifyCtx s.moduleStackIndex ScriptContext.unprepare
    (ScriptContext.unprepare_active _) fun member => absurd member gone).tryDiscardLastModuleForPop
  have waitingPopped :=
    (waiting.modifyCtx ScriptContext.unprepare gone).tryDiscardLastModuleForPop
  have empty := tryDiscardLastModuleForPop_top
    (s := s.modifyCtx s.moduleStackIndex ScriptContext.unprepare)
  have index := tryDiscardLastModuleForPop_index
    (s := s.modifyCtx s.moduleStackIndex ScriptContext.unprepare)
  have running := tryDiscardLastModuleForPop_running
    (s := s.modifyCtx s.moduleStackIndex ScriptContext.unprepare)
  simp only [calcCtxAfterExecute]
  generalize (s.modifyCtx s.moduleStackIndex ScriptContext.unprepare).tryDiscardLastModuleForPop = u
    at invPopped waitingPopped empty index running ⊢
  replace index : u.moduleStackIndex = s.moduleStackIndex := index
  replace running : u.running = s.running := running
  replace empty : (u.moduleStack s.moduleStackIndex).asModule = none := empty
  rw [← running] at waitingPopped below
  rw [← index] at empty below
  split
  next crashed => exact .inr ⟨invPopped, by simp only [Placed, crashed]⟩
  split
  · exact inv_calcCtxReturn invPopped waitingPopped _
  · have same := index ▸ u.sameScripts_inheritOnPop
    refine inv_popTo (invPopped.congr same) (waitingPopped.running_congr same) ?_ ?_
    · simpa only [same.running, same.moduleStackIndex] using below
    · simpa only [getSP, same.asModule, same.moduleStackIndex] using empty

/-- `Execute` of the innermost context returns. Only a script on top runs to its end. -/
theorem inv_executeReturn {sp : Nat} {rest : List Nat} (inv : s.StackInv)
    (running : s.running = sp :: rest) (waiting : s.Waiting rest) (status : EContextState)
    (stopped : status ≠ .active) (finished : status = .finished → sp = s.moduleStackIndex) :
    (s.executeReturn sp status).Inv := by
  have nested := inv.nested
  rw [running] at nested
  have invLeft := inv.leaveExecute running stopped
  have waitingLeft := waiting.leaveExecute (not_mem_of_nested nested) status
  have left : (s.leaveExecute sp status).running = rest := by
    simp [leaveExecute, modifyCtx, running]
  have index : (s.leaveExecute sp status).moduleStackIndex = s.moduleStackIndex := rfl
  rw [← left] at waitingLeft nested
  unfold executeReturn
  generalize s.leaveExecute sp status = u at invLeft waitingLeft nested index ⊢
  cases status with
  | finished =>
    have top : sp = u.moduleStackIndex := by rw [index, finished rfl]
    subst top
    exact inv_calcCtxAfterExecute_finished invLeft waitingLeft fun i member =>
      List.rel_of_pairwise_cons nested member
  | exception => exact inv_abort_calcCtxReturn invLeft _ _
  | suspended => exact inv_calcCtxReturn invLeft waitingLeft _
  | aborted => exact inv_calcCtxReturn invLeft waitingLeft _
  | prepared => exact inv_calcCtxReturn invLeft waitingLeft _
  | uninitialized => exact inv_calcCtxReturn invLeft waitingLeft _
  | active => exact absurd rfl stopped
  | error => exact inv_calcCtxReturn invLeft waitingLeft _

/-- A statement boundary: the script goes on, or leaves as its flags say. -/
theorem inv_checkFlags {sp : Nat} {rest : List Nat} (inv : s.StackInv)
    (running : s.running = sp :: rest) (waiting : s.Waiting rest)
    (placed : s.isAbortReq = false → sp ≤ s.moduleStackIndex ∧
      (sp < s.moduleStackIndex → (s.moduleStack sp).asCtx.doSuspend = true)) :
    (s.checkFlags sp).Inv := by
  unfold checkFlags
  split
  next unasked =>
    have quiet : s.isAbortReq = false := by
      by_contra aborting
      have asked := (inv.stopping (by simpa using aborting) sp (by simp [running])).1
      exact absurd (asked.symm.trans unasked) (by decide)
    have top : sp = s.moduleStackIndex := by
      have place := placed quiet
      by_contra different
      have asked := place.2 (by omega)
      exact absurd (asked.symm.trans unasked) (by decide)
    refine .inr ⟨⟨inv.index_lt, inv.active, inv.within, inv.nested, inv.above, inv.stopping⟩,
      rest, ?_, waiting, quiet⟩
    exact top ▸ running
  next =>
    split
    · exact inv_executeReturn inv running waiting .aborted (by decide) nofun
    · exact inv_executeReturn inv running waiting .suspended (by decide) nofun

end Sched

end LotusKit.Schedule

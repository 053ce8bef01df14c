import Mathlib.Data.List.Nodup
import LotusKit.Schedule.Reachable

/-! The engine's modules. Most of the scheduler leaves them and the slots' references to them
alone; a push registers a module or finds one, and a pop or an abort discards some. A module
is discarded a second time only by the pop of a slot that still refers to it. -/

namespace LotusKit.Schedule
open LotusKit.Lib.Transition

namespace Sched
variable {s t u : Sched}

/-- Built, and not yet discarded. -/
def Live (s : Sched) (m : Nat) : Prop :=
  m < s.builtModules ∧ m ∉ s.discards.map Discard.asModule

/-- The engine's modules, and who refers to them, are the same in both states. -/
structure SameModules (s t : Sched) : Prop where
  asModule : ∀ i, (t.moduleStack i).asModule = (s.moduleStack i).asModule
  modules : t.modules = s.modules
  builtModules : t.builtModules = s.builtModules
  discards : t.discards = s.discards

theorem SameModules.refl (s : Sched) : SameModules s s := ⟨fun _ => rfl, rfl, rfl, rfl⟩

theorem SameModules.trans (first : SameModules s t) (second : SameModules t u) :
    SameModules s u :=
  ⟨fun i => (second.asModule i).trans (first.asModule i), second.modules.trans first.modules,
    second.builtModules.trans first.builtModules, second.discards.trans first.discards⟩

theorem SameScripts.modules_same (same : SameScripts s t) : SameModules s t :=
  ⟨same.asModule, same.modules, same.builtModules, same.discards⟩

theorem sameModules_modifyCtx (i : Nat) (f : ScriptContext → ScriptContext) :
    SameModules s (s.modifyCtx i f) := by
  refine ⟨fun j => ?_, rfl, rfl, rfl⟩
  by_cases same : j = i <;> simp [modifyCtx, same]

theorem sameModules_abortStackReq (reason : String) : SameModules s (s.abortStackReq reason) := by
  refine ⟨fun i => ?_, rfl, rfl, rfl⟩
  simp only [abortStackReq]
  split <;> rfl

theorem sameModules_calcCtxReturn (isCompleteOrFail : Bool) :
    SameModules s (s.calcCtxReturn isCompleteOrFail) :=
  ⟨fun _ => rfl, rfl, rfl, rfl⟩

theorem sameModules_calcCtxEnter (deltaFrame60 : Nat) :
    SameModules s (s.calcCtxEnter deltaFrame60) := by
  simp only [calcCtxEnter]
  split
  · exact (sameModules_abortStackReq _).trans (sameModules_calcCtxReturn _)
  · have asked := s.sameScripts_isBlockedFromScheduling.modules_same
    generalize s.isBlockedFromScheduling = answer at asked ⊢
    obtain ⟨isBlocked, u⟩ := answer
    have charged := (sameScripts_calcConsumeFrametime u deltaFrame60).modules_same
    generalize u.calcConsumeFrametime_queryIsInputExhausted deltaFrame60 = answer at charged ⊢
    obtain ⟨isInputExhausted, v⟩ := answer
    simp only at asked charged ⊢
    split
    · exact asked.trans (sameModules_calcCtxReturn _)
    · split
      · exact (asked.trans charged).trans (sameModules_calcCtxReturn _)
      · refine (asked.trans charged).trans ⟨fun i => ?_, rfl, rfl, rfl⟩
        by_cases top : i = v.moduleStackIndex <;> simp [beginExecute, modifyCtx, top]

/-- Only a script that ran to its end gives up its module. -/
theorem sameModules_executeReturn (sp : Nat) {status : EContextState}
    (unfinished : status ≠ .finished) : SameModules s (s.executeReturn sp status) := by
  have left : SameModules s (s.leaveExecute sp status) := by
    refine ⟨fun i => ?_, rfl, rfl, rfl⟩
    by_cases same : i = sp <;> simp [leaveExecute, modifyCtx, same]
  refine left.trans ?_
  unfold executeReturn
  generalize s.leaveExecute sp status = u
  cases status with
  | finished => exact absurd rfl unfinished
  | exception => exact (sameModules_abortStackReq _).trans (sameModules_calcCtxReturn _)
  | suspended => exact sameModules_calcCtxReturn _
  | aborted => exact sameModules_calcCtxReturn _
  | prepared => exact sameModules_calcCtxReturn _
  | uninitialized => exact sameModules_calcCtxReturn _
  | active => exact sameModules_calcCtxReturn _
  | error => exact sameModules_calcCtxReturn _

theorem sameModules_callBind (bind : Bind) : SameModules s (s.callBind bind) := by
  rcases s.callBind_cases bind with ⟨reason, -, aborted⟩ | same | same
  · rw [aborted]
    exact sameModules_abortStackReq reason
  · exact same.modules_same
  · exact (sameModules_modifyCtx _ _).trans same.modules_same

theorem sameModules_modifySlot (k : Nat) (f : ModuleStackFrame → ModuleStackFrame)
    (keeps : ∀ frame, (f frame).asModule = frame.asModule) : SameModules s (s.modifySlot k f) := by
  refine ⟨fun j => ?_, rfl, rfl, rfl⟩
  by_cases same : j = k <;> simp [same, keeps]

/-- The two outcomes of the scan of a pop. -/
theorem tryDiscardLastModuleForPop_cases {m : Nat} (holds : s.getSP.asModule = some m) :
    ((∃ i < s.moduleStackIndex - 1, (s.moduleStack i).asModule = some m) ∧
        s.tryDiscardLastModuleForPop = s.setModule s.moduleStackIndex none) ∨
      ((∀ i < s.moduleStackIndex - 1, (s.moduleStack i).asModule ≠ some m) ∧
        s.tryDiscardLastModuleForPop =
          (s.setModule s.moduleStackIndex none).discardModule m s.moduleStackIndex) := by
  have other (i : Nat) (below : i < s.moduleStackIndex - 1) :
      ((s.setModule s.moduleStackIndex none).moduleStack i).asModule =
        (s.moduleStack i).asModule := by
    have different : i ≠ s.moduleStackIndex := by omega
    simp [setModule, different]
  simp only [tryDiscardLastModuleForPop, holds, List.any_eq_true, List.mem_range,
    decide_eq_true_eq, setModule_moduleStackIndex]
  split
  next found =>
    obtain ⟨i, below, uses⟩ := found
    exact .inl ⟨⟨i, below, other i below ▸ uses⟩, rfl⟩
  next unused =>
    exact .inr ⟨fun i below uses => unused ⟨i, below, (other i below).trans uses⟩, rfl⟩

/-- The script on top has finished, and is about to be popped. -/
def Pops (s : Sched) : Prop := s.control = .run ∧ s.getSP.asCtx.program = .done

/-- What a finished script leaves for the pop. -/
def beforePop (s : Sched) : Sched :=
  (s.leaveExecute s.moduleStackIndex .finished).modifyCtx s.moduleStackIndex ScriptContext.unprepare

theorem sameModules_beforePop (s : Sched) : SameModules s s.beforePop := by
  refine ⟨fun i => ?_, rfl, rfl, rfl⟩
  by_cases top : i = s.moduleStackIndex <;> simp [beforePop, leaveExecute, modifyCtx, top]

theorem executeReturn_finished_eq (s : Sched) : s.executeReturn s.moduleStackIndex .finished =
    if s.beforePop.tryDiscardLastModuleForPop.control = .crash then
      s.beforePop.tryDiscardLastModuleForPop
    else if s.beforePop.tryDiscardLastModuleForPop.moduleStackIndex = 0 then
      s.beforePop.tryDiscardLastModuleForPop.calcCtxReturn true
    else
      { s.beforePop.tryDiscardLastModuleForPop.inheritOnPop s.moduleStackIndex with
        moduleStackIndex :=
          (s.beforePop.tryDiscardLastModuleForPop.inheritOnPop s.moduleStackIndex).moduleStackIndex - 1
        control := .ctxEnter 0 } := rfl

theorem sameModules_executeReturn_finished (s : Sched) :
    SameModules s.beforePop.tryDiscardLastModuleForPop
      (s.executeReturn s.moduleStackIndex .finished) := by
  have index : s.beforePop.tryDiscardLastModuleForPop.moduleStackIndex = s.moduleStackIndex := by
    rw [tryDiscardLastModuleForPop_index]
    rfl
  rw [s.executeReturn_finished_eq]
  split
  · exact .refl _
  split
  · exact sameModules_calcCtxReturn _
  · have inherited := (sameScripts_inheritOnPop s.beforePop.tryDiscardLastModuleForPop).modules_same
    rw [index] at inherited
    exact ⟨inherited.asModule, inherited.modules, inherited.builtModules, inherited.discards⟩

theorem calcCtxReturn_whole (s : Sched) (isCompleteOrFail : Bool) :
    (s.calcCtxReturn isCompleteOrFail).control ≠ .crash := by
  simp only [calcCtxReturn]
  split <;> decide

/-- The pop of the slot on top would discard a module that was discarded before. -/
def PopsAgain (s : Sched) : Prop :=
  ∃ m, s.getSP.asModule = some m ∧
    (∀ i < s.moduleStackIndex - 1, (s.moduleStack i).asModule ≠ some m) ∧
    m ∈ s.discards.map Discard.asModule

theorem PopsAgain.congr (again : s.PopsAgain) (same : SameModules s t)
    (index : t.moduleStackIndex = s.moduleStackIndex) : t.PopsAgain := by
  simpa only [PopsAgain, getSP, index, same.asModule, same.discards] using again

theorem tryDiscardLastModuleForPop_crash (whole : s.control ≠ .crash) :
    s.tryDiscardLastModuleForPop.control = .crash ↔ s.PopsAgain := by
  cases holds : s.getSP.asModule with
  | none =>
    simp only [tryDiscardLastModuleForPop, holds]
    refine iff_of_false whole ?_
    rintro ⟨m, held, -⟩
    exact Option.some_ne_none m (held.symm.trans holds)
  | some m =>
    rcases tryDiscardLastModuleForPop_cases holds with ⟨⟨i, below, uses⟩, popped⟩ | ⟨unused, popped⟩
    · rw [popped]
      refine iff_of_false whole ?_
      rintro ⟨n, held, unused, -⟩
      exact unused i below (by rw [uses, ← holds, held])
    · rw [popped]
      simp only [discardModule, setModule_discards, setModule_control]
      constructor
      · intro crashed
        refine ⟨m, holds, unused, ?_⟩
        by_contra first
        exact whole (by rwa [if_neg first] at crashed)
      · rintro ⟨n, held, -, gone⟩
        obtain rfl : m = n := Option.some.inj (holds.symm.trans held)
        rw [if_pos gone]

/-- The script on top has finished, and its pop discards a module for the second time. -/
def DiscardsAgain (s : Sched) : Prop := s.Pops ∧ s.PopsAgain

theorem executeReturn_finished_crash (whole : s.control ≠ .crash) :
    (s.executeReturn s.moduleStackIndex .finished).control = .crash ↔ s.PopsAgain := by
  have before : s.beforePop.control ≠ .crash := whole
  have same := s.sameModules_beforePop
  have back : SameModules s.beforePop s :=
    ⟨fun i => (same.asModule i).symm, same.modules.symm, same.builtModules.symm, same.discards.symm⟩
  have popped := (tryDiscardLastModuleForPop_crash before).trans
    ⟨fun again => again.congr back rfl, fun again => again.congr same rfl⟩
  rw [← popped, s.executeReturn_finished_eq]
  split
  next crashed => exact iff_of_true crashed crashed
  next crashed =>
    refine iff_of_false ?_ crashed
    split
    · exact calcCtxReturn_whole _ _
    · exact Control.noConfusion

theorem calcCtxEnter_whole (s : Sched) (deltaFrame60 : Nat) :
    (s.calcCtxEnter deltaFrame60).control ≠ .crash := by
  simp only [calcCtxEnter]
  split
  · exact calcCtxReturn_whole _ _
  · split
    · exact calcCtxReturn_whole _ _
    · split
      · exact calcCtxReturn_whole _ _
      · exact Control.noConfusion

theorem executeReturn_whole (s : Sched) (sp : Nat) {status : EContextState}
    (unfinished : status ≠ .finished) : (s.executeReturn sp status).control ≠ .crash := by
  unfold executeReturn calcCtxAfterExecute
  cases status with
  | finished => exact absurd rfl unfinished
  | _ => exact calcCtxReturn_whole _ _

theorem callBind_control (s : Sched) (bind : Bind) : (s.callBind bind).control = s.control := by
  rcases s.callBind_cases bind with ⟨reason, -, aborted⟩ | same | same
  · rw [aborted]
    rfl
  · exact same.control
  · exact same.control

theorem enterSlot_whole (whole : s.control ≠ .crash) (k m : Nat) (hasEntryPoint : Bool)
    (program : Script) (doImmediateExecute blockOnDebugPause : Bool) :
    (s.enterSlot k m hasEntryPoint program doImmediateExecute blockOnDebugPause).control ≠
      .crash := by
  simp only [enterSlot]
  split
  · exact whole
  · split
    · exact whole
    · split
      · exact Control.noConfusion
      · exact whole

theorem pushed_whole (whole : s.control ≠ .crash) {target : PushTarget} {answers : ScriptSource}
    {program : Script} {doImmediateExecute blockOnDebugPause : Bool}
    (pushed : Pushed s target answers program doImmediateExecute blockOnDebugPause t) :
    t.control ≠ .crash := by
  cases pushed with
  | refused _ _ => exact whole
  | @entered m u _ provided =>
    have stands : u.control ≠ .crash := by cases provided <;> exact whole
    have suspended :
        (if u.getSP.asCtx.status = .active then u.trySuspendCtx else u).control ≠ .crash := by
      split <;> exact stands
    unfold pushExecModuleEntryPoint
    generalize (if u.getSP.asCtx.status = .active then u.trySuspendCtx else u) = v at suspended
    simp only
    split
    · exact @enterSlot_whole (v.modifySlot _ _) suspended _ _ _ _ _ _
    · split
      · exact @enterSlot_whole (v.inheritOnPush _) suspended _ _ _ _ _ _
      · exact Control.noConfusion

/-- Only the pop of a module that was discarded before crashes. -/
theorem tick_crash_iff (inv : s.Inv) (runs : s.Runs) :
    s.tick.control = .crash ↔ s.DiscardsAgain := by
  obtain ⟨inv, placed⟩ := inv.resolve_left runs.1
  have elsewhere (stands : s.control ≠ .run) (whole : s.tick.control ≠ .crash) :
      s.tick.control = .crash ↔ s.DiscardsAgain :=
    iff_of_false whole fun again => stands again.1.1
  cases stands : s.control with
  | idle => exact elsewhere (by simp [stands]) (by simp [tick, stands])
  | fault => exact absurd stands runs.1
  | crash => exact absurd stands runs.2
  | ctxEnter deltaFrame60 =>
    refine elsewhere (by simp [stands]) ?_
    simp only [tick, stands]
    exact s.calcCtxEnter_whole deltaFrame60
  | boundary =>
    refine elsewhere (by simp [stands]) ?_
    simp only [Placed, stands] at placed
    obtain ⟨sp, rest, running, -⟩ := placed
    simp only [tick, stands, running, checkFlags]
    split
    · exact Control.noConfusion
    · split
      · exact s.executeReturn_whole sp (by decide)
      · exact s.executeReturn_whole sp (by decide)
  | run =>
    simp only [Placed, stands] at placed
    obtain ⟨rest, running, -⟩ := placed
    have ticked : s.tick = s.runStatement s.moduleStackIndex := by simp only [tick, stands, running]
    have other (goesOn : s.getSP.asCtx.program ≠ .done)
        (whole : (s.runStatement s.moduleStackIndex).control ≠ .crash) :
        s.tick.control = .crash ↔ s.DiscardsAgain := by
      rw [ticked]
      exact iff_of_false whole fun again => goesOn again.1.2
    cases program : (s.moduleStack s.moduleStackIndex).asCtx.program with
    | done =>
      rw [ticked, runStatement, program]
      exact (executeReturn_finished_crash runs.2).trans
        ⟨fun again => ⟨⟨stands, program⟩, again⟩, fun again => again.2⟩
    | throw =>
      refine other (by simp [getSP, program]) ?_
      rw [runStatement, program]
      exact s.executeReturn_whole _ (by decide)
    | call bind next =>
      refine other (by simp [getSP, program]) ?_
      rw [runStatement, program]
      show ((s.setProgram s.moduleStackIndex next).callBind bind).control ≠ .crash
      rw [callBind_control]
      exact Control.noConfusion
    | exec e child next =>
      refine other (by simp [getSP, program]) ?_
      rw [runStatement, program]
      exact pushed_whole Control.noConfusion (pushed_pushExec _ e child)

/-- No module is discarded a second time up to the end of the frame. -/
def Whole (s : Sched) : Prop := ∀ n, (Sched.tick^[n] s).control ≠ .crash

theorem Whole.tick (whole : s.Whole) : s.tick.Whole := fun n => whole (n + 1)

theorem Whole.leads (whole : s.Whole) (leads : Leads Sched.tick s t) : t.Whole := by
  obtain ⟨m, rfl⟩ := leads
  intro n
  rw [← Function.iterate_add_apply]
  exact whole (n + m)

theorem tick_idle (idle : s.control = .idle) : s.tick = s := by simp only [tick, idle]

theorem tick_crash (crashed : s.control = .crash) : s.tick = s := by simp only [tick, crashed]

theorem tick_of_not_runs (over_ : ¬s.Runs) : s.tick = s := by
  by_cases fault : s.control = .fault
  · simp only [tick, fault]
  · exact tick_crash (by_contra fun other => over_ ⟨fault, other⟩)

theorem leads_tick (s : Sched) : Leads Sched.tick s s.tick := .head (.refl _)

theorem leads_two_ticks (s : Sched) : Leads Sched.tick s s.tick.tick := .head (.head (.refl _))

/-- A frame that comes to its end did not crash. -/
theorem whole_of_leads (leads : Leads Sched.tick s t) (idle : t.control = .idle) : s.Whole := by
  intro n crashed
  have same : t = Sched.tick^[n] s := leads.unique ⟨n, rfl⟩ (tick_idle idle) (tick_crash crashed)
  rw [← same, idle] at crashed
  cases crashed

theorem whole_iff (inv : s.Inv) (begins : s.control ≠ .crash) :
    s.Whole ↔ ∀ n, ¬(Sched.tick^[n] s).DiscardsAgain := by
  have later (n : Nat) : (Sched.tick^[n] s).Inv := by
    induction n with
    | zero => exact inv
    | succ n ih =>
      rw [Function.iterate_succ_apply']
      exact inv_tick ih
  constructor
  · intro whole n again
    have runs : (Sched.tick^[n] s).Runs := by simp [Runs, again.1.1]
    have crashed := (tick_crash_iff (later n) runs).mpr again
    rw [← Function.iterate_succ_apply' Sched.tick n s] at crashed
    exact whole (n + 1) crashed
  · intro never n
    induction n with
    | zero => exact begins
    | succ n ih =>
      rw [Function.iterate_succ_apply']
      by_cases fault : (Sched.tick^[n] s).control = .fault
      · simp [tick, fault]
      · exact fun crashed => never n ((tick_crash_iff (later n) ⟨fault, ih⟩).mp crashed)

/-- The engine's books: what is registered was built and not discarded, and under one name;
what was discarded was built. -/
structure EngineOk (s : Sched) : Prop where
  built : ∀ i m, (s.moduleStack i).asModule = some m → m < s.builtModules
  registered : ∀ entry ∈ s.modules, s.Live entry.2
  distinct : (s.modules.map Prod.snd).Nodup
  numbered : ∀ m ∈ s.discards.map Discard.asModule, m < s.builtModules

theorem EngineOk.congr (ok : s.EngineOk) (same : SameModules s t) : t.EngineOk := by
  obtain ⟨built, registered, distinct, numbered⟩ := ok
  constructor <;> simpa only [Live, same.asModule, same.modules, same.builtModules, same.discards]

theorem EngineOk.setModule (ok : s.EngineOk) (i : Nat) {m : Option Nat}
    (built : ∀ n, m = some n → n < s.builtModules) : (s.setModule i m).EngineOk := by
  refine ⟨fun j n holds => ?_, ok.registered, ok.distinct, ok.numbered⟩
  simp only [Sched.setModule, modifySlot_moduleStack] at holds
  split at holds
  · exact built n holds
  · exact ok.built j n holds

theorem EngineOk.discardModule (ok : s.EngineOk) {m : Nat} (own : Nat) (built : m < s.builtModules) :
    (s.discardModule m own).EngineOk := by
  have names : (s.discardModule m own).discards.map Discard.asModule =
      s.discards.map Discard.asModule ++ [m] := by
    simp [Sched.discardModule]
  refine ⟨ok.built, fun entry member => ?_, ?_, fun n gone => ?_⟩
  · obtain ⟨before, other⟩ := List.mem_filter.mp member
    refine ⟨(ok.registered entry before).1, ?_⟩
    rw [names, List.mem_append, List.mem_singleton, not_or]
    exact ⟨(ok.registered entry before).2, of_decide_eq_true other⟩
  · exact ok.distinct.sublist (List.filter_sublist.map Prod.snd)
  · rw [names, List.mem_append, List.mem_singleton] at gone
    exact gone.elim (ok.numbered n) fun same => same ▸ built

theorem EngineOk.tryDiscardLastModuleForPop (ok : s.EngineOk) :
    s.tryDiscardLastModuleForPop.EngineOk := by
  cases holds : s.getSP.asModule with
  | none =>
    simp only [Sched.tryDiscardLastModuleForPop, holds]
    exact ok
  | some m =>
    have left := ok.setModule s.moduleStackIndex (m := none) fun n none_ => absurd none_.symm (Option.some_ne_none n)
    rcases tryDiscardLastModuleForPop_cases holds with ⟨-, popped⟩ | ⟨-, popped⟩
    · rw [popped]
      exact left
    · rw [popped]
      exact left.discardModule _ (ok.built _ m holds)

theorem EngineOk.clearSlot (ok : s.EngineOk) (i : Nat) : (s.clearSlot i).EngineOk := by
  have same := sameModules_modifyCtx (s := s) i fun c => c.abort.unprepare
  simp only [Sched.clearSlot]
  generalize s.modifyCtx i (fun c => c.abort.unprepare) = u at same ⊢
  have okU := ok.congr same
  split
  · exact okU
  next m holds =>
    exact (okU.discardModule i (okU.built i m holds)).setModule i fun n none_ =>
      absurd none_.symm (Option.some_ne_none n)

theorem EngineOk.abortStackImpl (ok : s.EngineOk) : s.abortStackImpl.EngineOk := by
  have cleared (slots : List Nat) : ∀ u : Sched, u.EngineOk →
      (slots.foldl (fun s i => s.clearSlot i) u).EngineOk := by
    induction slots with
    | nil => exact fun _ => id
    | cons i slots ih => exact fun u okU => ih _ (okU.clearSlot i)
  unfold Sched.abortStackImpl
  split
  · exact ok
  · exact (cleared _ { s with isAbortReq := false } (ok.congr ⟨fun _ => rfl, rfl, rfl, rfl⟩)).congr
      ⟨fun _ => rfl, rfl, rfl, rfl⟩

theorem EngineOk.playbackCalc (ok : s.EngineOk) (deltaFrame60 : Nat) :
    (s.playbackCalc deltaFrame60).EngineOk := by
  rw [Sched.playbackCalc]
  rcases s.abortStackImpl.playbackResume_cases deltaFrame60 with same | same
  · rw [same]
    exact ok.abortStackImpl
  · rw [same]
    exact ok.abortStackImpl.congr ⟨fun _ => rfl, rfl, rfl, rfl⟩

/-- A push gets a registered module. -/
theorem Provided.engineOk {name : String} {m : Nat} (provided : Provided s name m t)
    (ok : s.EngineOk) : t.EngineOk ∧ t.getModule name = some m := by
  cases provided with
  | reused found => exact ⟨ok, found⟩
  | built missing =>
    have fresh : s.builtModules ∉ s.modules.map Prod.snd := by
      intro member
      obtain ⟨entry, listed, same⟩ := List.mem_map.mp member
      exact absurd (ok.registered entry listed).1 (by omega)
    refine ⟨⟨fun i m holds => Nat.lt_succ_of_lt (ok.built i m holds), fun entry member => ?_, ?_,
      fun m gone => Nat.lt_succ_of_lt (ok.numbered m gone)⟩, ?_⟩
    · rcases List.mem_append.mp member with before | now
      · exact ⟨Nat.lt_succ_of_lt (ok.registered entry before).1, (ok.registered entry before).2⟩
      · rw [List.mem_singleton.mp now]
        exact ⟨Nat.lt_succ_self _, fun gone => absurd (ok.numbered _ gone) (Nat.lt_irrefl _)⟩
    · rw [List.map_append, List.nodup_append]
      refine ⟨ok.distinct, List.nodup_singleton _, fun m before n member same => fresh ?_⟩
      have now : n = s.builtModules := List.mem_singleton.mp member
      rw [← now, ← same]
      exact before
    · unfold getModule at missing ⊢
      rw [List.lookup_append, missing]
      simp

theorem EngineOk.live (ok : s.EngineOk) {name : String} {m : Nat} (found : s.getModule name = some m) :
    s.Live m := by
  obtain ⟨before, after, listed, -⟩ := List.lookup_eq_some_iff.mp found
  exact ok.registered (name, m) (by simp [listed])

theorem EngineOk.enterSlot (ok : s.EngineOk) {m : Nat} (built : m < s.builtModules) (k : Nat)
    (hasEntryPoint : Bool) (program : Script) (doImmediateExecute blockOnDebugPause : Bool) :
    (s.enterSlot k m hasEntryPoint program doImmediateExecute blockOnDebugPause).EngineOk := by
  have entered := (ok.setModule k (m := some m) fun n is => Option.some.inj is ▸ built).congr
    (sameModules_modifySlot k (fun frame => { frame with state :=
      { frame.state with blockOnDebugPause := blockOnDebugPause } }) fun _ => rfl)
  simp only [Sched.enterSlot]
  split
  · exact ok.congr (sameModules_abortStackReq _)
  · split
    · exact entered.congr (sameModules_abortStackReq _)
    · have prepared := sameModules_modifyCtx (s := (s.setModule k (some m)).modifyState k fun state =>
        { state with blockOnDebugPause := blockOnDebugPause }) k (ScriptContext.prepare program)
      split
      · exact entered.congr ⟨prepared.1, prepared.2, prepared.3, prepared.4⟩
      · exact entered.congr ⟨prepared.1, prepared.2, prepared.3, prepared.4⟩

theorem EngineOk.pushed (ok : s.EngineOk) {target : PushTarget} {answers : ScriptSource}
    {program : Script} {doImmediateExecute blockOnDebugPause : Bool}
    (pushed : Pushed s target answers program doImmediateExecute blockOnDebugPause t) :
    t.EngineOk := by
  cases pushed with
  | refused reason _ => exact ok.congr (sameModules_abortStackReq reason)
  | @entered m u _ provided =>
    obtain ⟨okU, found⟩ := provided.engineOk ok
    have suspended :
        SameModules u (if u.getSP.asCtx.status = .active then u.trySuspendCtx else u) := by
      split
      · exact sameModules_modifyCtx _ _
      · exact .refl u
    have built : m < u.builtModules := (okU.live found).1
    unfold pushExecModuleEntryPoint
    generalize (if u.getSP.asCtx.status = .active then u.trySuspendCtx else u) = v at suspended
    have okV := okU.congr suspended
    rw [← suspended.builtModules] at built
    simp only
    split
    · have reset := sameModules_modifySlot (s := v) v.moduleStackIndex ModuleStackFrame.resetState
        fun _ => rfl
      exact (okV.congr reset).enterSlot built _ _ _ _ _
    · split
      · have inherited : SameModules v (v.inheritOnPush v.moduleStackIndex) :=
          sameModules_modifySlot _ _ fun _ => rfl
        exact (okV.congr inherited).enterSlot built _ _ _ _ _
      · exact okV.congr ⟨fun _ => rfl, rfl, rfl, rfl⟩

theorem EngineOk.tick (inv : s.Inv) (ok : s.EngineOk) : s.tick.EngineOk := by
  rcases inv with broken | ⟨inv, placed⟩
  · simp only [Sched.tick, broken]
    exact ok
  · cases stands : s.control with
    | idle =>
      simp only [Sched.tick, stands]
      exact ok
    | fault =>
      simp only [Sched.tick, stands]
      exact ok
    | crash =>
      simp only [Sched.tick, stands]
      exact ok
    | ctxEnter d =>
      simp only [Sched.tick, stands]
      exact ok.congr (sameModules_calcCtxEnter d)
    | boundary =>
      simp only [Placed, stands] at placed
      obtain ⟨sp, rest, running, -⟩ := placed
      simp only [Sched.tick, stands, running, checkFlags]
      split
      · exact ok.congr ⟨fun _ => rfl, rfl, rfl, rfl⟩
      · split
        · exact ok.congr (sameModules_executeReturn sp (by decide))
        · exact ok.congr (sameModules_executeReturn sp (by decide))
    | run =>
      simp only [Placed, stands] at placed
      obtain ⟨rest, running, -⟩ := placed
      have stepped (next : Script) : SameModules s (s.setProgram s.moduleStackIndex next) :=
        ⟨(sameModules_modifyCtx (s := s) s.moduleStackIndex fun c =>
          { c with program := next }).asModule, rfl, rfl, rfl⟩
      simp only [Sched.tick, stands, running, runStatement]
      cases (s.moduleStack s.moduleStackIndex).asCtx.program with
      | done =>
        exact (ok.congr s.sameModules_beforePop).tryDiscardLastModuleForPop.congr
          s.sameModules_executeReturn_finished
      | throw => exact ok.congr (sameModules_executeReturn _ (by decide))
      | call bind next => exact ok.congr ((stepped next).trans (sameModules_callBind bind))
      | exec e child next => exact (ok.congr (stepped next)).pushed (pushed_pushExec _ e child)

theorem engineOk_init : Sched.init.EngineOk := ⟨nofun, nofun, List.nodup_nil, nofun⟩

theorem engineOk_reachable (reached : scheduler.Reachable s) : s.EngineOk := by
  have both := @System.Reachable.invariant _ _ scheduler (fun s => s.Inv ∧ s.EngineOk)
    (fun _ start => start ▸ ⟨inv_init, engineOk_init⟩) (fun s a t held taken => ?_) _ reached
  · exact both.2
  · refine ⟨inv_step held.1 taken, ?_⟩
    cases taken with
    | tick _ _ => exact held.2.tick held.1
    | push source answers program _ => exact held.2.pushed (s.pushed_pushFrom answers program source)
    | frame deltaFrame60 _ => exact held.2.playbackCalc deltaFrame60
    | pauses counts targets _ => exact held.2.congr ⟨fun _ => rfl, rfl, rfl, rfl⟩

end Sched

end LotusKit.Schedule

import LotusKit.Schedule.Modules

/-! The lifetime of modules. A pop looks for another user of the module it gives up
everywhere but in the slot right below it, and an abort does not look at all. So the
lifetimes are right along a run exactly when no pop leaves the module to its parent alone
and no abort finds a module in two slots. -/

namespace LotusKit.Schedule
open LotusKit.Lib.Transition

namespace Sched
variable {s t u : Sched}

/-- What module lifetimes should be. -/
structure LifetimeOk (s : Sched) : Prop where
  referenced : ∀ i < MAX_MODULE_STACK_DEPTH, ∀ m, (s.moduleStack i).asModule = some m → s.Live m
  once : (s.discards.map Discard.asModule).Nodup
  unshared : ∀ d ∈ s.discards, d.holders = []

/-- Together with what the engine knows, this is kept by every step that discards no
shared module. -/
structure Owned (s : Sched) : Prop where
  ok : s.LifetimeOk
  registered : ∀ entry ∈ s.modules, s.Live entry.2
  numbered : ∀ m ∈ s.discards.map Discard.asModule, m < s.builtModules

theorem Owned.congr (owned : s.Owned) (same : SameModules s t) : t.Owned := by
  have live (m : Nat) (is : s.Live m) : t.Live m := by
    rw [Live, same.builtModules, same.discards]
    exact is
  refine ⟨⟨fun i inside m holds => ?_, ?_, ?_⟩, fun entry member => ?_, ?_⟩
  · exact live m (owned.ok.referenced i inside m (same.asModule i ▸ holds))
  · rw [same.discards]
    exact owned.ok.once
  · rw [same.discards]
    exact owned.ok.unshared
  · exact live _ (owned.registered entry (same.modules ▸ member))
  · rw [same.discards, same.builtModules]
    exact owned.numbered

/-- A module is discarded that no slot refers to any more. -/
theorem Owned.discard {m : Nat} (owned : s.Owned) (live : s.Live m)
    (modules : t.modules = s.modules.filter fun entry => entry.2 ≠ m)
    (builtModules : t.builtModules = s.builtModules)
    (discards : t.discards = s.discards ++ [⟨m, []⟩])
    (slots : ∀ i < MAX_MODULE_STACK_DEPTH, ∀ n, (t.moduleStack i).asModule = some n →
      n ≠ m ∧ (s.moduleStack i).asModule = some n) : t.Owned := by
  have names : t.discards.map Discard.asModule = s.discards.map Discard.asModule ++ [m] := by
    rw [discards, List.map_append]
    rfl
  have keeps (n : Nat) (is : s.Live n) (other : n ≠ m) : t.Live n := by
    refine ⟨builtModules ▸ is.1, ?_⟩
    rw [names, List.mem_append, List.mem_singleton, not_or]
    exact ⟨is.2, other⟩
  refine ⟨⟨fun i inside n holds => ?_, ?_, fun d member => ?_⟩, fun entry member => ?_,
    fun n member => ?_⟩
  · have slot := slots i inside n holds
    exact keeps n (owned.ok.referenced i inside n slot.2) slot.1
  · rw [names, List.nodup_append]
    refine ⟨owned.ok.once, List.nodup_singleton m, fun n before k member same => live.2 ?_⟩
    rw [← List.mem_singleton.mp member, ← same]
    exact before
  · rw [discards, List.mem_append, List.mem_singleton] at member
    rcases member with before | now
    · exact owned.ok.unshared d before
    · rw [now]
  · rw [modules, List.mem_filter, decide_eq_true_eq] at member
    exact keeps _ (owned.registered entry member.1) member.2
  · rw [names, List.mem_append, List.mem_singleton] at member
    rw [builtModules]
    rcases member with before | now
    · exact owned.numbered n before
    · exact now ▸ live.1

theorem mem_holders {m i : Nat} : i ∈ s.holders m ↔
    i < MAX_MODULE_STACK_DEPTH ∧ (s.moduleStack i).asModule = some m := by
  simp only [holders, List.mem_filter, List.mem_range, decide_eq_true_eq]

/-- The slot below the top is the only other one with the module of the top: the scan of
the pop leaves it out. -/
def OnlyParentShares (s : Sched) : Prop :=
  ∃ m, s.getSP.asModule = some m ∧ 1 ≤ s.moduleStackIndex ∧
    (s.moduleStack (s.moduleStackIndex - 1)).asModule = some m ∧
    ∀ i < s.moduleStackIndex - 1, (s.moduleStack i).asModule ≠ some m

theorem owned_setModule_none (owned : s.Owned) (i : Nat) : (s.setModule i none).Owned := by
  refine ⟨⟨fun j inside m holds => ?_, owned.ok.once, owned.ok.unshared⟩, owned.registered,
    owned.numbered⟩
  by_cases same : j = i
  · simp [setModule, same] at holds
  · simp only [setModule, modifySlot_moduleStack, if_neg same] at holds
    exact owned.ok.referenced j inside m holds

/-- A pop keeps the lifetimes right unless the parent alone shares the module. -/
theorem owned_pop (owned : s.Owned) (index_lt : s.moduleStackIndex < MAX_MODULE_STACK_DEPTH)
    (above : ∀ i, s.moduleStackIndex < i → i < MAX_MODULE_STACK_DEPTH →
      (s.moduleStack i).asModule = none)
    (fine : ¬s.OnlyParentShares) : s.tryDiscardLastModuleForPop.Owned := by
  cases holds : s.getSP.asModule with
  | none =>
    simp only [tryDiscardLastModuleForPop, holds]
    exact owned
  | some m =>
    rcases tryDiscardLastModuleForPop_cases holds with ⟨-, popped⟩ | ⟨unused, popped⟩
    · rw [popped]
      exact owned_setModule_none owned _
    · -- the slots below the parent were looked at, the parent is excluded, none is above
      have alone (i : Nat) (inside : i < MAX_MODULE_STACK_DEPTH) (different : i ≠ s.moduleStackIndex) :
          (s.moduleStack i).asModule ≠ some m := by
        intro uses
        rcases Nat.lt_trichotomy i s.moduleStackIndex with below | same | beyond
        · by_cases parent : i = s.moduleStackIndex - 1
          · exact fine ⟨m, holds, by omega, parent ▸ uses, unused⟩
          · exact unused i (by omega) uses
        · exact different same
        · rw [above i beyond inside] at uses
          cases uses
      have live := owned.ok.referenced _ index_lt m holds
      rw [popped]
      refine owned.discard live rfl rfl ?_ fun i inside n uses => ?_
      · have none_ : ((s.setModule s.moduleStackIndex none).holders m).filter
            (· ≠ s.moduleStackIndex) = [] := by
          refine List.filter_eq_nil_iff.mpr fun i member => ?_
          obtain ⟨inside, uses⟩ := mem_holders.mp member
          by_cases top : i = s.moduleStackIndex
          · simp [top]
          · simp only [setModule, modifySlot_moduleStack, if_neg top] at uses
            exact absurd uses (alone i inside top)
        simp only [discardModule, none_]
        rfl
      · by_cases top : i = s.moduleStackIndex
        · simp [discardModule, setModule, top] at uses
        · simp only [discardModule, setModule, modifySlot_moduleStack, if_neg top] at uses
          exact ⟨fun same => alone i inside top (same ▸ uses), uses⟩

/-- A pop that leaves the module to the parent alone discards it under the parent. -/
theorem not_ok_pop (shares : s.OnlyParentShares)
    (index_lt : s.moduleStackIndex < MAX_MODULE_STACK_DEPTH) :
    ∃ d ∈ s.tryDiscardLastModuleForPop.discards, d.holders ≠ [] := by
  obtain ⟨m, holds, positive, parent, unused⟩ := shares
  rcases tryDiscardLastModuleForPop_cases holds with ⟨⟨i, below, uses⟩, -⟩ | ⟨-, popped⟩
  · exact absurd uses (unused i below)
  · rw [popped]
    refine ⟨_, List.mem_append_right _ (List.mem_singleton.mpr rfl), ?_⟩
    refine List.ne_nil_of_mem (a := s.moduleStackIndex - 1) ?_
    have different : s.moduleStackIndex - 1 ≠ s.moduleStackIndex := by omega
    refine List.mem_filter.mpr ⟨mem_holders.mpr ⟨by omega, ?_⟩, by simpa using different⟩
    simpa [setModule, different] using parent

/-- Two slots refer to one module. -/
def Shared (s : Sched) : Prop :=
  ∃ i j m, i < j ∧ j < MAX_MODULE_STACK_DEPTH ∧ (s.moduleStack i).asModule = some m ∧
    (s.moduleStack j).asModule = some m

theorem clearSlot_asModule (i j : Nat) :
    ((s.clearSlot i).moduleStack j).asModule = if j = i then none else (s.moduleStack j).asModule := by
  obtain ⟨_, _, _, cleared⟩ := clearSlot_spec s i
  rw [cleared]
  by_cases same : j = i <;> simp [same, clearedSlot]

theorem unshared_clearSlot (alone : ¬s.Shared) (i : Nat) : ¬(s.clearSlot i).Shared := by
  rintro ⟨a, b, m, less, inside, first, second⟩
  rw [clearSlot_asModule] at first second
  split at first
  · cases first
  · split at second
    · cases second
    · exact alone ⟨a, b, m, less, inside, first, second⟩

theorem owned_clearSlot (owned : s.Owned) (alone : ¬s.Shared) {i : Nat}
    (inside : i < MAX_MODULE_STACK_DEPTH) : (s.clearSlot i).Owned := by
  have cleared := sameModules_modifyCtx (s := s) i fun c => c.abort.unprepare
  have slots := clearSlot_asModule (s := s) i
  simp only [clearSlot] at slots ⊢
  generalize s.modifyCtx i (fun c => c.abort.unprepare) = u at cleared slots ⊢
  cases holds : (u.moduleStack i).asModule with
  | none => exact owned.congr cleared
  | some m =>
    simp only [holds] at slots
    have held : (s.moduleStack i).asModule = some m := cleared.asModule i ▸ holds
    refine owned.discard (owned.ok.referenced i inside m held) ?_ ?_ ?_ fun j within n uses => ?_
    · rw [← cleared.modules]
      rfl
    · exact cleared.builtModules
    · rw [← cleared.discards]
      have none_ : (u.holders m).filter (· ≠ i) = [] := by
        refine List.filter_eq_nil_iff.mpr fun j member => ?_
        obtain ⟨within, uses⟩ := mem_holders.mp member
        rw [cleared.asModule] at uses
        rcases Nat.lt_trichotomy i j with below | same | above
        · exact absurd ⟨i, j, m, below, within, held, uses⟩ alone
        · simp [same]
        · exact absurd ⟨j, i, m, above, inside, uses, held⟩ alone
      simp only [discardModule, setModule_discards, none_]
    · rw [slots] at uses
      split at uses
      · cases uses
      next different =>
        refine ⟨fun same => ?_, uses⟩
        subst same
        rcases Nat.lt_trichotomy i j with below | same | above
        · exact alone ⟨i, j, n, below, within, held, uses⟩
        · exact different same.symm
        · exact alone ⟨j, i, n, above, inside, uses, held⟩

/-- The abort loop keeps the lifetimes right when no module is in two slots. -/
theorem owned_clearSlots (owned : s.Owned) (alone : ¬s.Shared) (n : Nat)
    (inside : n ≤ MAX_MODULE_STACK_DEPTH) :
    ((List.range n).foldl (fun s i => s.clearSlot i) s).Owned ∧
      ¬((List.range n).foldl (fun s i => s.clearSlot i) s).Shared := by
  induction n with
  | zero => exact ⟨owned, alone⟩
  | succ n ih =>
    obtain ⟨before, unshared⟩ := ih (by omega)
    rw [List.range_succ, List.foldl_append, List.foldl_cons, List.foldl_nil]
    exact ⟨owned_clearSlot before unshared (by omega), unshared_clearSlot unshared n⟩

theorem clearSlot_discards_mono (i : Nat) {d : Discard} (member : d ∈ s.discards) :
    d ∈ (s.clearSlot i).discards := by
  simp only [clearSlot]
  split
  · exact member
  · exact List.mem_append_left _ member

/-- Clearing a slot discards its module under everyone else who has it. -/
theorem clearSlot_discards {i m : Nat} (holds : (s.moduleStack i).asModule = some m) :
    ∃ d ∈ (s.clearSlot i).discards, ∀ j < MAX_MODULE_STACK_DEPTH, j ≠ i →
      (s.moduleStack j).asModule = some m → j ∈ d.holders := by
  have cleared := sameModules_modifyCtx (s := s) i fun c => c.abort.unprepare
  simp only [clearSlot]
  generalize s.modifyCtx i (fun c => c.abort.unprepare) = u at cleared ⊢
  simp only [cleared.asModule, holds]
  refine ⟨_, List.mem_append_right _ (List.mem_singleton.mpr rfl), fun j inside different uses => ?_⟩
  exact List.mem_filter.mpr
    ⟨mem_holders.mpr ⟨inside, cleared.asModule j ▸ uses⟩, decide_eq_true different⟩

/-- The abort loop discards a module in two slots while the second still refers to it. -/
theorem not_ok_clearSlots {i j m n : Nat} (less : i < j) (inside : j < MAX_MODULE_STACK_DEPTH)
    (first : (s.moduleStack i).asModule = some m) (second : (s.moduleStack j).asModule = some m)
    (through : i < n) :
    ∃ d ∈ ((List.range n).foldl (fun s i => s.clearSlot i) s).discards, d.holders ≠ [] := by
  induction n with
  | zero => exact absurd through (Nat.not_lt_zero i)
  | succ n ih =>
    rw [List.range_succ, List.foldl_append, List.foldl_cons, List.foldl_nil]
    by_cases reached : i = n
    · subst reached
      obtain ⟨modules, discards, control, cleared⟩ := clearSlots s i
      have slot (k : Nat) (from_ : i ≤ k) :
          (((List.range i).foldl (fun s i => s.clearSlot i) s).moduleStack k).asModule =
            (s.moduleStack k).asModule := by
        rw [cleared]
        simp only [if_neg (Nat.not_lt_of_le from_)]
      obtain ⟨d, member, others⟩ := clearSlot_discards ((slot i (Nat.le_refl i)).trans first)
      refine ⟨d, member, List.ne_nil_of_mem (others j inside (by omega) ?_)⟩
      exact (slot j (by omega)).trans second
    · obtain ⟨d, member, held⟩ := ih (by omega)
      exact ⟨d, clearSlot_discards_mono n member, held⟩

/-- The step discards a module that another slot still refers to. -/
def DiscardsShared (s : Sched) : Action → Prop
  | .tick => s.Pops ∧ s.OnlyParentShares
  | .push _ _ _ => False
  | .frame _ => s.isAbortReq = true ∧ s.Shared
  | .pauses _ _ => False

theorem OnlyParentShares.congr (shares : s.OnlyParentShares) (same : SameModules s t)
    (index : t.moduleStackIndex = s.moduleStackIndex) : t.OnlyParentShares := by
  simpa only [OnlyParentShares, getSP, index, same.asModule] using shares

theorem owned_setModule (owned : s.Owned) (i : Nat) {m : Nat} (live : s.Live m) :
    (s.setModule i (some m)).Owned := by
  refine ⟨⟨fun j inside n holds => ?_, owned.ok.once, owned.ok.unshared⟩, owned.registered,
    owned.numbered⟩
  by_cases same : j = i
  · simp only [setModule, modifySlot_moduleStack, if_pos same, Option.some.injEq] at holds
    exact holds ▸ live
  · simp only [setModule, modifySlot_moduleStack, if_neg same] at holds
    exact owned.ok.referenced j inside n holds

theorem owned_enterSlot (owned : s.Owned) {m : Nat} (live : s.Live m) (k : Nat)
    (hasEntryPoint : Bool) (program : Script) (doImmediateExecute blockOnDebugPause : Bool) :
    (s.enterSlot k m hasEntryPoint program doImmediateExecute blockOnDebugPause).Owned := by
  have entered (f : ModuleStackFrameScheduleState → ModuleStackFrameScheduleState) :
      SameModules (s.setModule k (some m)) ((s.setModule k (some m)).modifyState k f) := by
    refine ⟨fun j => ?_, rfl, rfl, rfl⟩
    by_cases same : j = k <;> simp [modifyState, same]
  simp only [enterSlot]
  split
  · exact owned.congr (sameModules_abortStackReq _)
  · split
    · exact (owned_setModule owned k live).congr
        ((entered _).trans (sameModules_abortStackReq _))
    · have prepared := (entered fun state => { state with blockOnDebugPause := blockOnDebugPause }).trans
        (sameModules_modifyCtx k (ScriptContext.prepare program))
      split
      · exact (owned_setModule owned k live).congr ⟨prepared.1, prepared.2, prepared.3, prepared.4⟩
      · exact (owned_setModule owned k live).congr ⟨prepared.1, prepared.2, prepared.3, prepared.4⟩

theorem owned_pushExecModuleEntryPoint (owned : s.Owned) {m : Nat} (live : s.Live m)
    (hasEntryPoint : Bool) (program : Script) (doImmediateExecute blockOnDebugPause : Bool) :
    (s.pushExecModuleEntryPoint m hasEntryPoint program doImmediateExecute
      blockOnDebugPause).Owned := by
  have suspended : SameModules s (if s.getSP.asCtx.status = .active then s.trySuspendCtx else s) := by
    split
    · exact sameModules_modifyCtx _ _
    · exact .refl s
  simp only [pushExecModuleEntryPoint]
  generalize (if s.getSP.asCtx.status = .active then s.trySuspendCtx else s) = u at suspended ⊢
  have ownedU := owned.congr suspended
  have liveU : u.Live m := by
    rw [Live, suspended.builtModules, suspended.discards]
    exact live
  split
  · have reset := sameModules_modifySlot (s := u) u.moduleStackIndex ModuleStackFrame.resetState
      fun _ => rfl
    exact owned_enterSlot (ownedU.congr reset) liveU _ _ _ _ _
  · split
    · have inherited : SameModules u (u.inheritOnPush u.moduleStackIndex) :=
        sameModules_modifySlot _ _ fun _ => rfl
      exact owned_enterSlot (ownedU.congr inherited) liveU _ _ _ _ _
    · exact ownedU.congr ⟨fun _ => rfl, rfl, rfl, rfl⟩

/-- A push refers to a module that the engine knows, or builds one. -/
theorem Provided.owned {name : String} {m : Nat} (provided : Provided s name m t)
    (owned : s.Owned) : t.Owned ∧ t.Live m := by
  cases provided with
  | reused found =>
    obtain ⟨before, after, listed, -⟩ := List.lookup_eq_some_iff.mp found
    exact ⟨owned, owned.registered (name, m) (by simp [listed])⟩
  | built _ =>
    set u : Sched := { s with
      modules := s.modules ++ [(name, s.builtModules)]
      builtModules := s.builtModules + 1 } with hu
    have live (n : Nat) (is : s.Live n) : u.Live n := ⟨Nat.lt_succ_of_lt is.1, is.2⟩
    have fresh : u.Live s.builtModules :=
      ⟨Nat.lt_succ_self _, fun gone => absurd (owned.numbered _ gone) (Nat.lt_irrefl _)⟩
    refine ⟨⟨⟨fun i inside n holds => ?_, owned.ok.once, owned.ok.unshared⟩,
      fun entry member => ?_, fun n gone => ?_⟩, fresh⟩
    · exact live n (owned.ok.referenced i inside n holds)
    · rcases List.mem_append.mp member with before | now
      · exact live _ (owned.registered entry before)
      · rw [List.mem_singleton.mp now]
        exact fresh
    · exact Nat.lt_succ_of_lt (owned.numbered n gone)

theorem owned_pushed (owned : s.Owned) {target : PushTarget} {answers : ScriptSource}
    {program : Script} {doImmediateExecute blockOnDebugPause : Bool}
    (pushed : Pushed s target answers program doImmediateExecute blockOnDebugPause t) :
    t.Owned := by
  cases pushed with
  | refused reason _ => exact owned.congr (sameModules_abortStackReq reason)
  | entered _ provided =>
    obtain ⟨known, live⟩ := provided.owned owned
    exact owned_pushExecModuleEntryPoint known live _ _ _ _

theorem owned_playbackCalc (owned : s.Owned) (fine : ¬(s.isAbortReq = true ∧ s.Shared))
    (deltaFrame60 : Nat) : (s.playbackCalc deltaFrame60).Owned := by
  have cleared : s.abortStackImpl.Owned := by
    by_cases quiet : s.isAbortReq = false
    · rw [abortStackImpl_of_quiet quiet]
      exact owned
    · have fold := (owned_clearSlots (s := { s with isAbortReq := false })
        (owned.congr ⟨fun _ => rfl, rfl, rfl, rfl⟩)
        (fun shared => fine ⟨by simpa using quiet, shared⟩) MAX_MODULE_STACK_DEPTH
        (Nat.le_refl _)).1
      unfold abortStackImpl
      rw [if_neg quiet]
      exact fold.congr ⟨fun _ => rfl, rfl, rfl, rfl⟩
  rw [playbackCalc]
  rcases s.abortStackImpl.playbackResume_cases deltaFrame60 with same | same
  · rw [same]
    exact cleared
  · rw [same]
    exact cleared.congr ⟨fun _ => rfl, rfl, rfl, rfl⟩

theorem owned_tick (inv : s.Inv) (owned : s.Owned) (fine : ¬(s.Pops ∧ s.OnlyParentShares)) :
    s.tick.Owned := by
  rcases inv with broken | ⟨inv, placed⟩
  · simp only [tick, broken]
    exact owned
  · cases stands : s.control with
    | idle =>
      simp only [tick, stands]
      exact owned
    | ctxEnter d =>
      simp only [tick, stands]
      exact owned.congr (sameModules_calcCtxEnter d)
    | boundary =>
      simp only [Placed, stands] at placed
      obtain ⟨sp, rest, running, -⟩ := placed
      simp only [tick, stands, running, checkFlags]
      split
      · exact owned.congr ⟨fun _ => rfl, rfl, rfl, rfl⟩
      · split
        · exact owned.congr (sameModules_executeReturn sp (by decide))
        · exact owned.congr (sameModules_executeReturn sp (by decide))
    | run =>
      simp only [Placed, stands] at placed
      obtain ⟨rest, running, -, quiet⟩ := placed
      have stepped (next : Script) : SameModules s (s.setProgram s.moduleStackIndex next) :=
        ⟨(sameModules_modifyCtx (s := s) s.moduleStackIndex fun c =>
          { c with program := next }).asModule, rfl, rfl, rfl⟩
      simp only [tick, stands, running, runStatement]
      cases program : (s.moduleStack s.moduleStackIndex).asCtx.program with
      | done =>
        have ready := owned.congr s.sameModules_beforePop
        refine (owned_pop ready inv.index_lt (fun i beyond inside => ?_) ?_).congr
          s.sameModules_executeReturn_finished
        · rw [s.sameModules_beforePop.asModule]
          exact inv.above quiet i beyond inside
        · intro shares
          have same := s.sameModules_beforePop
          exact fine ⟨⟨stands, program⟩, shares.congr
            ⟨fun i => (same.asModule i).symm, same.modules.symm, same.builtModules.symm,
              same.discards.symm⟩ rfl⟩
      | throw => exact owned.congr (sameModules_executeReturn _ (by decide))
      | call bind next => exact owned.congr ((stepped next).trans (sameModules_callBind bind))
      | exec e child next => exact owned_pushed (owned.congr (stepped next)) (pushed_pushExec _ e child)
    | fault =>
      simp only [tick, stands]
      exact owned
    | crash =>
      simp only [tick, stands]
      exact owned

theorem owned_step {a : Action} (inv : s.Inv) (owned : s.Owned) (fine : ¬s.DiscardsShared a)
    (taken : Step s a t) : t.Owned := by
  cases taken with
  | tick _ _ => exact owned_tick inv owned fine
  | push source answers program _ => exact owned_pushed owned (s.pushed_pushFrom answers program source)
  | frame deltaFrame60 _ => exact owned_playbackCalc owned fine deltaFrame60
  | pauses counts targets _ => exact owned.congr ⟨fun _ => rfl, rfl, rfl, rfl⟩

theorem owned_init : Sched.init.Owned :=
  ⟨⟨nofun, List.nodup_nil, nofun⟩, nofun, nofun⟩

theorem owned_reachable (reached : scheduler.ReachableUnder (fun s a => ¬s.DiscardsShared a) s) :
    s.Owned := by
  have both := @System.ReachableUnder.invariant _ _ scheduler _ (fun s => s.Inv ∧ s.Owned)
    (fun _ start => start ▸ ⟨inv_init, owned_init⟩)
    (fun _ _ _ held fine taken => ⟨inv_step held.1 taken, owned_step held.1 held.2 fine taken⟩)
    _ reached
  exact both.2

/-- A step that discards a shared module is seen in the discards. -/
theorem not_ok_step {a : Action} (inv : s.Inv) (shares : s.DiscardsShared a)
    (taken : Step s a t) : ¬t.LifetimeOk := by
  have witness : ∃ d ∈ t.discards, d.holders ≠ [] := by
    cases taken with
    | tick _ alive =>
      rcases inv with broken | ⟨inv, placed⟩
      · exact absurd broken alive.1
      · obtain ⟨⟨stands, program⟩, shares⟩ := shares
        simp only [Placed, stands] at placed
        obtain ⟨rest, running, -, -⟩ := placed
        simp only [tick, stands, running, runStatement, program]
        rw [s.sameModules_executeReturn_finished.discards]
        exact not_ok_pop (shares.congr s.sameModules_beforePop rfl) inv.index_lt
    | push source answers program _ => exact shares.elim
    | frame deltaFrame60 _ =>
      obtain ⟨aborting, i, j, m, less, inside, first, second⟩ := shares
      obtain ⟨d, member, held⟩ := not_ok_clearSlots (s := { s with isAbortReq := false })
        less inside first second (Nat.lt_trans less inside)
      refine ⟨d, ?_, held⟩
      have kept : (s.playbackCalc deltaFrame60).discards = s.abortStackImpl.discards := by
        rw [playbackCalc]
        rcases s.abortStackImpl.playbackResume_cases deltaFrame60 with same | same <;> rw [same]
      rw [kept, abortStackImpl, if_neg (by simp [aborting])]
      exact member
    | pauses counts targets _ => exact shares.elim
  intro ok
  obtain ⟨d, member, held⟩ := witness
  exact held (ok.unshared d member)

/-- Module lifetimes are right all along a run exactly when no pop leaves its module to the
parent alone and no abort finds a module in two slots. -/
theorem lifetimeOk_iff (run : scheduler.Run) :
    (∀ i ≤ run.length, (run.state i).LifetimeOk) ↔
      ∀ i < run.length, ¬(run.state i).DiscardsShared (run.action i) := by
  have enough (s : Sched)
      (reached : scheduler.ReachableUnder (fun s a => ¬s.DiscardsShared a) s) : s.LifetimeOk :=
    (owned_reachable reached).ok
  refine run.holds_iff enough fun s a t reached shares taken => ?_
  exact not_ok_step (inv_reachable reached.reachable) (not_not.mp shares) taken

/-- A script that executes its own file once more. -/
def selfRecursion : List Action :=
  [.push (.hotkeyFile "sdcard:/a.as") ⟨true, false, true, true⟩
     (.exec ⟨.awaitExecFile "sdcard:/a.as", ⟨true, false, true, true⟩, true, true⟩ .done .done),
   .frame 2, .tick, .tick, .tick, .tick, .tick, .tick]

/-- The inner call gives up the module that the outer one is still running. -/
theorem selfRecursion_not_ok :
    ¬∀ i ≤ (scheduler.replay selfRecursion (by decide +kernel)).length,
      ((scheduler.replay selfRecursion (by decide +kernel)).state i).LifetimeOk := by
  intro ok
  have last := (ok 8 (by decide +kernel)).unshared ⟨0, [0]⟩ (by decide +kernel)
  exact absurd last (by decide)

end Sched

end LotusKit.Schedule

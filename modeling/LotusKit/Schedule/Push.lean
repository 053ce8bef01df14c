import LotusKit.Schedule.Frame

/-! What a push does, for every way to push: it aborts because it gets no module, or it
enters the module that it found or built. -/

namespace LotusKit.Schedule

/-- The module a push asks for, and whether it is read from a file. -/
structure PushTarget where
  name : String
  isFile : Bool

def ExecBind.target : ExecBind → PushTarget
  | .awaitExecFile filename => ⟨filename, true⟩
  | .awaitExecFileNXTas filename => ⟨filename, true⟩
  | .awaitEval hash => ⟨Sched.evalModuleName hash, false⟩

def PushSource.target : PushSource → PushTarget
  | .websocket moduleName _ => ⟨moduleName, false⟩
  | .hotkeyFile filename => ⟨filename, true⟩
  | .hotkeyFileNXTas filename => ⟨filename, true⟩
  | .hotkeyEval hash => ⟨Sched.evalModuleName hash, false⟩
  | .autorun => ⟨"sdcard:/totk_lotuskit/autorun.as", true⟩

def PushSource.blockOnDebugPause : PushSource → Bool
  | .websocket _ blockOnDebugPause => blockOnDebugPause
  | .hotkeyFile _ => false
  | .hotkeyFileNXTas _ => false
  | .hotkeyEval _ => false
  | .autorun => true

namespace Sched

/-- The engine has the module, or the text can be read and builds. -/
def getsModule (target : PushTarget) (answers : ScriptSource) (s : Sched) : Bool :=
  (s.getModule target.name).isSome ||
    answers.builds && (!target.isFile || answers.fileExists && !answers.readTextFileFails)

/-- `u` is `s` with module `m` under the name. -/
inductive Provided (s : Sched) (name : String) : Nat → Sched → Prop
  | reused {m : Nat} : s.getModule name = some m → Provided s name m s
  | built : s.getModule name = none → Provided s name s.builtModules
      { s with modules := s.modules ++ [(name, s.builtModules)]
               builtModules := s.builtModules + 1 }

/-- The outcome `t` of a push. -/
inductive Pushed (s : Sched) (target : PushTarget) (answers : ScriptSource) (program : Script)
    (doImmediateExecute blockOnDebugPause : Bool) : Sched → Prop
  | refused (reason : String) : s.getsModule target answers = false →
      Pushed s target answers program doImmediateExecute blockOnDebugPause (s.abortStackReq reason)
  | entered {m : Nat} {u : Sched} : s.getsModule target answers = true →
      Provided s target.name m u →
      Pushed s target answers program doImmediateExecute blockOnDebugPause
        (u.pushExecModuleEntryPoint m answers.hasEntryPoint program doImmediateExecute
          blockOnDebugPause)

variable (s : Sched) (answers : ScriptSource) (program : Script)
  (doImmediateExecute blockOnDebugPause : Bool)

theorem pushed_buildAndPush (caller : String) (target : PushTarget)
    (readable : target.isFile = true → s.getModule target.name = none →
      answers.fileExists = true ∧ answers.readTextFileFails = false) :
    Pushed s target answers program doImmediateExecute blockOnDebugPause
      (s.buildAndPush caller target.name answers program doImmediateExecute blockOnDebugPause) := by
  simp only [buildAndPush, buildOnceOrGetModule]
  cases found : s.getModule target.name with
  | some m => exact .entered (by simp [getsModule, found]) (.reused found)
  | none =>
    cases builds : answers.builds with
    | false => exact .refused _ (by simp [getsModule, found, builds])
    | true =>
      refine .entered ?_ (.built found)
      cases file : target.isFile with
      | false => simp [getsModule, builds, file]
      | true => simp [getsModule, builds, readable file found]

theorem pushed_pushExecFile (caller filename : String) :
    Pushed s ⟨filename, true⟩ answers program doImmediateExecute blockOnDebugPause
      (s.pushExecFile caller filename answers program doImmediateExecute blockOnDebugPause) := by
  unfold pushExecFile
  split
  next unreadable =>
    refine .refused _ ?_
    rcases unreadable with ⟨missing, absent | fails⟩
    · simp [getsModule, missing, absent]
    · simp [getsModule, missing, fails]
  next readable =>
    refine s.pushed_buildAndPush answers program _ _ caller ⟨filename, true⟩ fun _ missing => ?_
    simp only [not_and, not_or] at readable
    simpa using readable missing

/-- A push out of a running script. -/
theorem pushed_pushExec (e : Exec) (child : Script) :
    Pushed s e.bind.target e.source child e.doImmediateExecute e.blockOnDebugPause
      (s.pushExec e child) := by
  unfold pushExec
  cases e.bind with
  | awaitExecFile filename => exact s.pushed_pushExecFile _ _ _ _ _ _
  | awaitExecFileNXTas filename => exact s.pushed_pushExecFile _ _ _ _ _ _
  | awaitEval hash => exact s.pushed_buildAndPush _ _ _ _ _ ⟨evalModuleName hash, false⟩ nofun

/-- A push from outside leaves the execution to the main loop. -/
theorem pushed_pushFrom (source : PushSource) :
    Pushed s source.target answers program false source.blockOnDebugPause
      (s.pushFrom source answers program) := by
  cases source with
  | websocket moduleName blockOnDebugPause =>
    exact s.pushed_buildAndPush _ _ _ _ _ ⟨moduleName, false⟩ nofun
  | hotkeyFile filename => exact s.pushed_pushExecFile _ _ _ _ _ _
  | hotkeyFileNXTas filename => exact s.pushed_pushExecFile _ _ _ _ _ _
  | hotkeyEval hash => exact s.pushed_buildAndPush _ _ _ _ _ ⟨evalModuleName hash, false⟩ nofun
  | autorun => exact s.pushed_pushExecFile _ _ _ _ _ _

/-- Execution came back to the main loop, to a script between two statements, or to
`CTX_ENTER` with no time left to charge. -/
def Returned (s : Sched) : Prop :=
  match s.control with
  | .run => False
  | .ctxEnter deltaFrame60 => deltaFrame60 = 0
  | _ => True

section Returned
variable {s t : Sched}

theorem returned_calcCtxReturn (s : Sched) (isCompleteOrFail : Bool) :
    (s.calcCtxReturn isCompleteOrFail).Returned := by
  by_cases empty : s.running = [] <;> simp [Returned, calcCtxReturn, empty]

theorem returned_executeReturn (s : Sched) (sp : Nat) (status : EContextState) :
    (s.executeReturn sp status).Returned := by
  unfold executeReturn calcCtxAfterExecute
  cases status with
  | finished =>
    simp only
    split
    next crashed => simp only [Returned, crashed]
    split
    · exact returned_calcCtxReturn _ _
    · exact rfl
  | _ => exact returned_calcCtxReturn _ _

theorem returned_of_boundary (stands : s.control = .boundary) : s.Returned := by
  rw [Returned, stands]
  trivial

theorem Returned.congr (returned : s.Returned) (same : t.control = s.control) : t.Returned := by
  rw [Returned, same]
  exact returned

theorem returned_enterSlot (caller : s.Returned) (sp m : Nat) (hasEntryPoint : Bool)
    (program : Script) (doImmediateExecute blockOnDebugPause : Bool) :
    (s.enterSlot sp m hasEntryPoint program doImmediateExecute blockOnDebugPause).Returned := by
  unfold enterSlot
  split
  · exact caller.congr rfl
  · simp only
    split
    · exact caller.congr rfl
    · split
      · exact rfl
      · exact caller.congr rfl

theorem returned_pushed (caller : s.Returned) {target : PushTarget} {answers : ScriptSource}
    {program : Script} {doImmediateExecute blockOnDebugPause : Bool}
    (pushed : Pushed s target answers program doImmediateExecute blockOnDebugPause t) :
    t.Returned := by
  cases pushed with
  | refused _ _ => exact caller.congr rfl
  | @entered m u _ provided =>
    have stands : u.Returned := by
      cases provided
      · exact caller
      · exact caller.congr rfl
    have suspended : (if u.getSP.asCtx.status = .active then u.trySuspendCtx else u).Returned := by
      split
      · exact stands.congr rfl
      · exact stands
    unfold pushExecModuleEntryPoint
    generalize (if u.getSP.asCtx.status = .active then u.trySuspendCtx else u) = v at suspended
    simp only
    split
    · exact @returned_enterSlot (v.modifySlot _ _) (suspended.congr rfl) _ _ _ _ _ _
    · split
      · exact @returned_enterSlot (v.inheritOnPush _) (suspended.congr rfl) _ _ _ _ _ _
      · trivial

/-- A tick returns, or has nothing to do, or lets a script run its next statement. -/
theorem tick_returned (s : Sched) : s.tick.Returned ∨
    (s.tick = s ∧ ∀ deltaFrame60, s.control ≠ .ctxEnter deltaFrame60) ∨
    ∃ sp rest, s.control = .boundary ∧ s.running = sp :: rest ∧
      (s.moduleStack sp).asCtx.doSuspend = false ∧ s.tick = { s with control := .run } := by
  cases stands : s.control with
  | idle => exact .inr (.inl ⟨by simp only [tick, stands], nofun⟩)
  | fault => exact .inr (.inl ⟨by simp only [tick, stands], nofun⟩)
  | crash => exact .inr (.inl ⟨by simp only [tick, stands], nofun⟩)
  | ctxEnter deltaFrame60 =>
    left
    simp only [tick, stands, calcCtxEnter]
    split
    · exact returned_calcCtxReturn _ _
    · split
      · exact returned_calcCtxReturn _ _
      · split
        · exact returned_calcCtxReturn _ _
        · exact returned_of_boundary rfl
  | boundary =>
    cases running : s.running with
    | nil => exact .inr (.inl ⟨by simp only [tick, stands, running], nofun⟩)
    | cons sp rest =>
      have ticked : s.tick = s.checkFlags sp := by simp only [tick, stands, running]
      rw [ticked]
      unfold checkFlags
      split
      next goes => exact .inr (.inr ⟨sp, rest, rfl, rfl, goes, by rw [running]⟩)
      next =>
        left
        split <;> exact returned_executeReturn _ _ _
  | run =>
    cases running : s.running with
    | nil => exact .inr (.inl ⟨by simp only [tick, stands, running], nofun⟩)
    | cons sp rest =>
      left
      simp only [tick, stands, running, runStatement]
      split
      · exact returned_executeReturn _ _ _
      · exact returned_executeReturn _ _ _
      next bind program _ =>
        apply returned_of_boundary
        rcases (s.setProgram sp program).callBind_cases bind with ⟨_, _, aborts⟩ | kept | suspends
        · rw [aborts]
          rfl
        · exact kept.control
        · exact suspends.control
      · exact returned_pushed (returned_of_boundary rfl) (pushed_pushExec _ _ _)

end Returned

end Sched

end LotusKit.Schedule

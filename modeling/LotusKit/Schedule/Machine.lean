import LotusKit.Lib.Transition
import LotusKit.Schedule.Binds

/-! The scheduler as a machine. `calcCtx` re-enters itself through the scripts it runs, so
its loop, `asIScriptContext::Execute` and the returns between them are single steps of a
machine that carries the C++ call stack: the slots being executed and a program counter.
`tick` is one such step; everything that happens between two frames is an `Action`. -/

namespace LotusKit.Schedule
open LotusKit.Lib.Transition

namespace Sched

/-- `calcCtx` returns to `Playback::calc` or to the push that called it. Both clear
`isPlaybackActive` on `true`; in the second case the script that pushed goes on. -/
def calcCtxReturn (isCompleteOrFail : Bool) (s : Sched) : Sched :=
  { s with
    isPlaybackActive := s.isPlaybackActive && !isCompleteOrFail
    control := if s.running = [] then .idle else .boundary }

/-- `sp->asCtx->Execute()` up to its first statement. -/
def beginExecute (s : Sched) : Sched :=
  let s := s.emit (.execute s.moduleStackIndex)
  let s := s.modifyCtx s.moduleStackIndex fun c => { c with status := .active }
  { s with running := s.moduleStackIndex :: s.running, control := .boundary }

/-- `calcCtx` from `CTX_ENTER` to the call of `Execute`. -/
def calcCtxEnter (deltaFrame60 : Nat) (s : Sched) : Sched :=
  if s.isValidForExecution = false then
    (s.abortStackReq "[tas::schedule::calcCtx] no playable ctx").calcCtxReturn true
  else
    let (isBlocked, s) := s.isBlockedFromScheduling
    if isBlocked then s.calcCtxReturn false
    else
      let (isInputExhausted, s) := s.calcConsumeFrametime_queryIsInputExhausted deltaFrame60
      if isInputExhausted = false ∧ s.isPlaybackBeginPending = false then s.calcCtxReturn false
      else { s with isPlaybackBeginPending := false }.beginExecute

/-- The parent takes over the finished script's input unless it has something scheduled. -/
def inheritOnPop (sp : Nat) (s : Sched) : Sched :=
  if (s.moduleStack (sp - 1)).state.inputTTL60 = 0 then
    s.modifyState (sp - 1) fun state =>
      { state with
        input := (s.moduleStack sp).state.input
        playbackInputPassthroughMode := (s.moduleStack sp).state.playbackInputPassthroughMode }
  else s

/-- `calcCtx` after `Execute` of slot `sp` returned. -/
def calcCtxAfterExecute (sp : Nat) (asErrno : EContextState) (s : Sched) : Sched :=
  match asErrno with
  | .finished =>
    let s := (s.modifyCtx sp ScriptContext.unprepare).tryDiscardLastModuleForPop
    if s.control = .crash then s
    else if s.moduleStackIndex = 0 then s.calcCtxReturn true
    else
      let s := s.inheritOnPop sp
      { s with moduleStackIndex := s.moduleStackIndex - 1, control := .ctxEnter 0 }
  | .exception =>
    (s.abortStackReq "[tas::schedule::calcCtx] exception").calcCtxReturn true
  | .suspended => s.calcCtxReturn false
  | _ => s.calcCtxReturn true

/-- `Execute` of slot `sp` leaves the context in state `status`, and the C++ stack. -/
def leaveExecute (sp : Nat) (status : EContextState) (s : Sched) : Sched :=
  let s := s.modifyCtx sp fun c =>
    { c with
      status := status
      doSuspend := false
      doAbort := if status = .aborted then false else c.doAbort }
  { s with running := s.running.tail }

def executeReturn (sp : Nat) (status : EContextState) (s : Sched) : Sched :=
  (s.leaveExecute sp status).calcCtxAfterExecute sp status

def setProgram (sp : Nat) (rest : Script) (s : Sched) : Sched :=
  { s.modifyCtx sp fun c => { c with program := rest } with control := .boundary }

/-- The next statement of the context in slot `sp`. -/
def runStatement (sp : Nat) (s : Sched) : Sched :=
  match (s.moduleStack sp).asCtx.program with
  | .done => s.executeReturn sp .finished
  | .throw => s.executeReturn sp .exception
  | .call bind rest => (s.setProgram sp rest).callBind bind
  | .exec e child rest => (s.setProgram sp rest).pushExec e child

/-- The statement boundary, where the flags are honoured. -/
def checkFlags (sp : Nat) (s : Sched) : Sched :=
  if (s.moduleStack sp).asCtx.doSuspend = false then { s with control := .run }
  else if (s.moduleStack sp).asCtx.doAbort then s.executeReturn sp .aborted
  else s.executeReturn sp .suspended

def tick (s : Sched) : Sched :=
  match s.control, s.running with
  | .ctxEnter d, _ => s.calcCtxEnter d
  | .boundary, sp :: _ => s.checkFlags sp
  | .run, sp :: _ => s.runStatement sp
  | _, _ => s

/-- `Playback::calc` after `abortStackImpl`, up to its call of `calcCtx`. -/
def playbackResume (deltaFrame60 : Nat) (s : Sched) : Sched :=
  if s.control = .crash then s
  else if s.isPlaybackActive = false ∧ s.isPlaybackBeginPending = false then s
  else { s with control := .ctxEnter deltaFrame60 }

/-- `Playback::calc`. -/
def playbackCalc (deltaFrame60 : Nat) (s : Sched) : Sched :=
  s.abortStackImpl.playbackResume deltaFrame60

end Sched

/-- Who pushes a script from outside AngelScript; all of them leave it to the main loop. -/
inductive PushSource where
  /-- `JsonDispatch::dispatchText` with `execScriptString`. -/
  | websocket (moduleName : String) (blockOnDebugPause : Bool)
  /-- `hotkey::calcDispatch`, execType 1 to 3. -/
  | hotkeyFile (filename : String)
  | hotkeyFileNXTas (filename : String)
  | hotkeyEval (hash : Nat)
  /-- `engine::doAutorun`. -/
  | autorun

def Sched.pushFrom (source : PushSource) (answers : ScriptSource) (program : Script)
    (s : Sched) : Sched :=
  match source with
  | .websocket moduleName blockOnDebugPause =>
    s.pushExecTextModule moduleName answers program false blockOnDebugPause
  | .hotkeyFile filename => s.pushExecLocalFileModule filename answers program false false
  | .hotkeyFileNXTas filename => s.pushExecLocalFileModuleNXTas filename answers program false false
  | .hotkeyEval hash => s.pushExecEval hash answers program false false
  | .autorun =>
    s.pushExecLocalFileModule "sdcard:/totk_lotuskit/autorun.as" answers program false true

inductive Action where
  | tick
  | push (source : PushSource) (answers : ScriptSource) (program : Script)
  | frame (deltaFrame60 : Nat)
  /-- The game, or anyone else, requests and releases pauses. -/
  | pauses (pauseRequestCount : Nat → Int) (targetPaused : Nat → Bool)

instance : Inhabited Action := ⟨.tick⟩

/-- The program still has a meaning. -/
def Sched.Runs (s : Sched) : Prop := s.control ≠ .fault ∧ s.control ≠ .crash

instance (s : Sched) : Decidable s.Runs := inferInstanceAs (Decidable (_ ∧ _))

inductive Step : Sched → Action → Sched → Prop
  | tick {s : Sched} : s.control ≠ .idle → s.Runs → Step s .tick s.tick
  | push {s : Sched} (source : PushSource) (answers : ScriptSource) (program : Script) :
      s.control = .idle → Step s (.push source answers program) (s.pushFrom source answers program)
  | frame {s : Sched} (deltaFrame60 : Nat) :
      s.control = .idle → Step s (.frame deltaFrame60) (s.playbackCalc deltaFrame60)
  | pauses {s : Sched} (counts : Nat → Int) (targets : Nat → Bool) :
      s.Runs → Step s (.pauses counts targets)
        { s with pauseRequestCount := counts, targetPaused := targets }

/-- The scheduler from boot on. -/
def scheduler : System Sched Action where
  Start s := s = .init
  Step := Step

/-- The one state an action leads to. -/
def Sched.perform (a : Action) (s : Sched) : Sched :=
  match a with
  | .tick => s.tick
  | .push source answers program => s.pushFrom source answers program
  | .frame deltaFrame60 => s.playbackCalc deltaFrame60
  | .pauses counts targets => { s with pauseRequestCount := counts, targetPaused := targets }

def Sched.enabled (a : Action) (s : Sched) : Bool :=
  match a with
  | .tick => s.control ≠ .idle ∧ s.Runs
  | .push _ _ _ => s.control = .idle
  | .frame _ => s.control = .idle
  | .pauses _ _ => s.Runs

theorem step_perform (a : Action) (s : Sched) (can : s.enabled a = true) :
    Step s a (s.perform a) := by
  cases a with
  | tick =>
    simp only [Sched.enabled, decide_eq_true_eq] at can
    exact .tick can.1 can.2
  | push source answers program => exact .push _ _ _ (of_decide_eq_true can)
  | frame deltaFrame60 => exact .frame _ (of_decide_eq_true can)
  | pauses counts targets => exact .pauses _ _ (of_decide_eq_true can)

/-- The run that takes the listed actions from boot on. -/
def scheduler.replay (actions : List Action)
    (can : System.allEnabled Sched.enabled Sched.perform actions .init = true) : scheduler.Run :=
  .replay actions .init rfl step_perform can

end LotusKit.Schedule

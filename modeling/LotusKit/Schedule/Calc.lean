import LotusKit.Schedule.State

/-! The functions of `schedule.cpp` and `Playback.cpp` that do not run a script: what an
AngelScript context does when asked to suspend, abort, prepare or unprepare, the pause and
frame time accounting of `calcCtx`, aborting, and the binds of a running script. -/

namespace LotusKit.Schedule

namespace ScriptContext

def suspend (c : ScriptContext) : ScriptContext := { c with doSuspend := true }

/-- `Abort` changes the state of a suspended context only; an active one sees the flags
at its next statement boundary. -/
def abort (c : ScriptContext) : ScriptContext :=
  { c with
    status := if c.status = .suspended then .aborted else c.status
    doSuspend := true
    doAbort := true }

/-- `Prepare` fails on an active or suspended context, and only a context that did not
just finish has its flags cleared. -/
def prepare (program : Script) (c : ScriptContext) : ScriptContext :=
  if c.status = .active ∨ c.status = .suspended then c
  else if c.status = .finished then { c with status := .prepared, program := program }
  else ⟨.prepared, false, false, program⟩

def unprepare (c : ScriptContext) : ScriptContext :=
  if c.status = .active ∨ c.status = .suspended then c
  else { c with status := .uninitialized, program := .done }

end ScriptContext

def ModuleStackFrame.resetState (frame : ModuleStackFrame) : ModuleStackFrame :=
  { frame with state :=
    { input := frame.state.input
      inputTTL60 := 0
      awaitBegin60 := 0
      isAwaitPauseRequestHash := 0
      isAwaitPauseTargetHash := 0
      blockOnDebugPause := true
      blockOnLoadingPause := true
      awaitPauseVal := false
      inputFPSMode := .fps30_2X
      playbackInputPassthroughMode := .nullVanilla } }

def DebugPause : Nat := 0x2d67e2da
def LoadingPause : Nat := 0x0eafe200

namespace Sched

def isPauseRequest (s : Sched) (hash : Nat) : Bool := 0 < s.pauseRequestCount hash

def requestPause (hash : Nat) (s : Sched) : Sched :=
  { s with pauseRequestCount :=
      Function.update s.pauseRequestCount hash (s.pauseRequestCount hash + 1) }

def releasePause (hash : Nat) (s : Sched) : Sched :=
  { s with pauseRequestCount :=
      Function.update s.pauseRequestCount hash (s.pauseRequestCount hash - 1) }

/-- `ModuleStackFrame::isValidForExecution` of the slot on top. -/
def isValidForExecution (s : Sched) : Bool :=
  if s.isAbortReq then false
  else if s.getSP.asModule = none then false
  else s.getSP.asCtx.status = .suspended ∨ s.getSP.asCtx.status = .prepared

def endAwaitPauseRequest (s : Sched) : Sched :=
  s.modifyState s.moduleStackIndex fun state => { state with isAwaitPauseRequestHash := 0 }

def endAwaitPauseTarget (s : Sched) : Sched :=
  s.modifyState s.moduleStackIndex fun state => { state with isAwaitPauseTargetHash := 0 }

def calcScheduleIsAwaitPauseRequest (s : Sched) : Bool × Sched :=
  if s.getSP.state.isAwaitPauseRequestHash = 0 then (false, s)
  else if s.getSP.state.awaitPauseVal ≠ s.isPauseRequest s.getSP.state.isAwaitPauseRequestHash then
    (true, s)
  else (false, s.endAwaitPauseRequest)

def calcScheduleIsAwaitPauseTarget (s : Sched) : Bool × Sched :=
  if s.getSP.state.isAwaitPauseTargetHash = 0 then (false, s)
  else if s.getSP.state.awaitPauseVal ≠ s.targetPaused s.getSP.state.isAwaitPauseTargetHash then
    (true, s)
  else (false, s.endAwaitPauseTarget)

/-- A script that blocks on `hash` does not resume, but waiting for that very pause is
over once the pause is seen. -/
def clearAwaitOf (hash : Nat) (s : Sched) : Sched :=
  if s.getSP.state.isAwaitPauseRequestHash = hash ∧ s.getSP.state.awaitPauseVal = true then
    s.endAwaitPauseRequest
  else s

/-- The awaits, the last part of `isBlockedFromScheduling`. -/
def isBlockedByAwait (s : Sched) : Bool × Sched :=
  let (request, s) := s.calcScheduleIsAwaitPauseRequest
  if request then (true, s) else s.calcScheduleIsAwaitPauseTarget

/-- The LoadingPause part of `isBlockedFromScheduling` and what follows it. -/
def isBlockedByLoadingPause (s : Sched) : Bool × Sched :=
  if s.isPauseRequest LoadingPause ∧ s.getSP.state.blockOnLoadingPause = true then
    (true, s.clearAwaitOf LoadingPause)
  else s.isBlockedByAwait

def isBlockedFromScheduling (s : Sched) : Bool × Sched :=
  if s.isPlaybackBeginPending then (false, s)
  else if s.isPauseRequest DebugPause ∧ s.getSP.state.blockOnDebugPause = true then
    let s := s.clearAwaitOf DebugPause
    if s.isFrameAdvance = true ∧ 0 < s.bypassDebugPause60 then s.isBlockedByLoadingPause
    else (true, s)
  else s.isBlockedByLoadingPause

def trySuspendCtx (s : Sched) : Sched := s.modifyCtx s.moduleStackIndex ScriptContext.suspend

/-- The slot the frame's time is charged to: the one below a pending script when that
one still has scheduled input. -/
def chargedSlot (s : Sched) : Nat :=
  if s.isPlaybackBeginPending = true ∧ 0 < s.moduleStackIndex ∧
      0 < (s.moduleStack (s.moduleStackIndex - 1)).state.inputTTL60 then s.moduleStackIndex - 1
  else s.moduleStackIndex

/-- The frame advance part: the new state, `isPlaybackFrame` and
`isPauseAwareInputFrame`. -/
def calcFrameAdvance (slot deltaFrame60 : Nat) (s : Sched) : Sched × Bool × Bool :=
  let isPause := s.isPauseRequest DebugPause
  if isPause = false ∧ s.bypassDebugPause60 = 0 then (s.requestPause DebugPause, true, false)
  else if isPause = true ∧ s.bypassDebugPause60 = 0 then (s, false, false)
  else if (s.moduleStack slot).state.blockOnDebugPause = false then (s, true, true)
  else if isPause = true then (s.releasePause DebugPause, false, false)
  else
    let bypassed := s.bypassDebugPause60 - min s.bypassDebugPause60 deltaFrame60
    let s := { s with bypassDebugPause60 := bypassed }
    (if bypassed = 0 then s.requestPause DebugPause else s, true, false)

/-- Truncated subtraction is the branch that abandons the rest of a scheduled input. -/
def deductFrametime (slot deltaFrame60 : Nat) (isPauseAwareInputFrame : Bool) (s : Sched) : Sched :=
  let s := s.modifyState slot fun state => { state with inputTTL60 := state.inputTTL60 - deltaFrame60 }
  if isPauseAwareInputFrame then s
  else { s with elapsedPlayback60 := u32 (s.elapsedPlayback60 + deltaFrame60) }

def calcConsumeFrametime_queryIsInputExhausted (deltaFrame60 : Nat) (s : Sched) : Bool × Sched :=
  let slot := s.chargedSlot
  let (s, isPlaybackFrame, isPauseAwareInputFrame) :=
    if s.isFrameAdvance then s.calcFrameAdvance slot deltaFrame60 else (s, true, false)
  let s := if isPlaybackFrame then s.deductFrametime slot deltaFrame60 isPauseAwareInputFrame else s
  ((s.moduleStack slot).state.inputTTL60 == 0, s)

/-- The slots that refer to module `m`. -/
def holders (m : Nat) (s : Sched) : List Nat :=
  (List.range MAX_MODULE_STACK_DEPTH).filter fun i => (s.moduleStack i).asModule = some m

/-- `asIScriptModule::Discard`, called while slot `own` gives the module up. The second time
puts the module on the engine's `discardedModules` twice, and `DeleteDiscardedModules` deletes
it at the first entry and uses it at the second; or it is gone already. -/
def discardModule (m own : Nat) (s : Sched) : Sched :=
  { s with
    modules := s.modules.filter fun entry => entry.2 ≠ m
    discards := s.discards ++ [⟨m, (s.holders m).filter (· ≠ own)⟩]
    control := if m ∈ s.discards.map Discard.asModule then .crash else s.control }

def abortStackReq (reason : String) (s : Sched) : Sched :=
  { s.emit (.abortReq reason) with
    isAbortReq := true
    abortReqReason := reason
    moduleStack := fun i =>
      if i < MAX_MODULE_STACK_DEPTH then
        { s.moduleStack i with asCtx := (s.moduleStack i).asCtx.abort }
      else s.moduleStack i }

/-- One turn of the loop of `abortStackImpl`. -/
def clearSlot (i : Nat) (s : Sched) : Sched :=
  let s := s.modifyCtx i fun c => c.abort.unprepare
  match (s.moduleStack i).asModule with
  | none => s
  | some m => (s.discardModule m i).setModule i none

/-- The control is the only thing that counts once one of the modules was discarded twice. -/
def abortStackImpl (s : Sched) : Sched :=
  if s.isAbortReq = false then s
  else
    let s := { s with isAbortReq := false }
    let s := (List.range MAX_MODULE_STACK_DEPTH).foldl (fun s i => s.clearSlot i) s
    { s with moduleStackIndex := 0, isPlaybackActive := false, abortReqReason := "" }

/-- Only the slots strictly below the one below the top are asked whether they still use
the module. -/
def tryDiscardLastModuleForPop (s : Sched) : Sched :=
  match s.getSP.asModule with
  | none => s
  | some m =>
    let s := s.setModule s.moduleStackIndex none
    if (List.range (s.moduleStackIndex - 1)).any fun i => (s.moduleStack i).asModule = some m then s
    else s.discardModule m s.moduleStackIndex

end Sched

end LotusKit.Schedule

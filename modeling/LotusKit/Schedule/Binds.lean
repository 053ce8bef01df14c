import LotusKit.Schedule.Calc

/-! What a statement of a running script does: the binds of `Playback.cpp`, and the
pushes of `schedule.cpp` with their error paths. -/

namespace LotusKit.Schedule

/-- The axis direction bits of `nn::hid::NpadButton`, with the axis value that sets each
past the 16400 threshold of the sdk. -/
def axisFlags (l r : AnalogStickState) : List (Nat × Bool) :=
  [(18, 16400 < l.mX), (16, l.mX < -16400), (17, 16400 < l.mY), (19, l.mY < -16400),
   (22, 16400 < r.mX), (20, r.mX < -16400), (21, 16400 < r.mY), (23, r.mY < -16400)]

def setFlag (buttons : BitVec 64) (flag : Nat × Bool) : BitVec 64 :=
  if flag.2 then buttons ||| (1 <<< flag.1) else buttons

def rehydrateAxisFlags (buttons : BitVec 64) (l r : AnalogStickState) : BitVec 64 :=
  (axisFlags l r).foldl setFlag buttons

def scheduledInput (nextButtons : BitVec 64) (l r : AnalogStickState) : PlaybackInput :=
  ⟨rehydrateAxisFlags nextButtons l r, l, r⟩

namespace Sched

/-- `dst` after `Playback::applyCurrentInput`, when playback is active. -/
def applyInput (mode : PlaybackInputPassthroughMode) (input dst : PlaybackInput) : PlaybackInput :=
  let orAxis (human tas : Int) := if human ≠ 0 then human else tas
  let xorAxis (human tas : Int) := if tas = 0 then human else if human = 0 then tas else 0
  match mode with
  | .nullVanilla => dst
  | .playbackTasOnly => input
  | .passthroughOr =>
    ⟨dst.buttons ||| input.buttons,
     ⟨orAxis dst.lStick.mX input.lStick.mX, orAxis dst.lStick.mY input.lStick.mY⟩,
     ⟨orAxis dst.rStick.mX input.rStick.mX, orAxis dst.rStick.mY input.rStick.mY⟩⟩
  | .passthroughXor =>
    ⟨dst.buttons ^^^ input.buttons,
     ⟨xorAxis dst.lStick.mX input.lStick.mX, xorAxis dst.lStick.mY input.lStick.mY⟩,
     ⟨xorAxis dst.rStick.mX input.rStick.mX, xorAxis dst.rStick.mY input.rStick.mY⟩⟩

/-- `none` is the early return that leaves `dst` alone. -/
def applyCurrentInput (dst : PlaybackInput) (s : Sched) : Option PlaybackInput :=
  if s.isPlaybackActive then
    some (applyInput s.getSP.state.playbackInputPassthroughMode s.getSP.state.input dst)
  else none

def duration60 (duration : Nat) (s : Sched) : Nat :=
  u32 (duration * s.getSP.state.inputFPSMode.factor)

def setMode (mode : PlaybackInputPassthroughMode) (s : Sched) : Sched :=
  s.modifyState s.moduleStackIndex fun state =>
    { state with playbackInputPassthroughMode := mode }

def setCurrentInput (duration : Nat) (nextButtons : BitVec 64)
    (nextLStick nextRStick : AnalogStickState) (s : Sched) : Sched :=
  let duration60 := s.duration60 duration
  let input := scheduledInput nextButtons nextLStick nextRStick
  let s := s.emit (.input s.moduleStackIndex duration60 input)
  let s := s.modifyState s.moduleStackIndex fun state =>
    { state with inputTTL60 := duration60, input := input,
                 playbackInputPassthroughMode := .playbackTasOnly }
  let s := if s.isPlaybackActive then s else { s with elapsedPlayback60 := 0 }
  let s := { s with isPlaybackActive := true }
  if 0 < duration60 then s.trySuspendCtx else s

def setCurrentInputOr (duration : Nat) (nextButtons : BitVec 64)
    (nextLStick nextRStick : AnalogStickState) (s : Sched) : Sched :=
  (s.setCurrentInput duration nextButtons nextLStick nextRStick).setMode .passthroughOr

def setCurrentInputXor (duration : Nat) (nextButtons : BitVec 64)
    (nextLStick nextRStick : AnalogStickState) (s : Sched) : Sched :=
  (s.setCurrentInput duration nextButtons nextLStick nextRStick).setMode .passthroughXor

def setSleepInput (duration : Nat) (s : Sched) : Sched :=
  (s.setCurrentInput duration 0 ⟨0, 0⟩ ⟨0, 0⟩).setMode .nullVanilla

/-- The four awaits differ in the hash they set and in the awaited value. -/
def scheduleAwait (set : ModuleStackFrameScheduleState → ModuleStackFrameScheduleState)
    (awaitPauseVal : Bool) (s : Sched) : Sched :=
  let s := s.modifyState s.moduleStackIndex fun state =>
    set { state with awaitPauseVal := awaitPauseVal, awaitBegin60 := s.elapsedPlayback60 }
  { s with isPlaybackActive := true }.trySuspendCtx

def doScheduleAwaitPauseRequest (hash : Nat) : Sched → Sched :=
  scheduleAwait (fun state => { state with isAwaitPauseRequestHash := hash }) true

def doScheduleAwaitUnpauseRequest (hash : Nat) : Sched → Sched :=
  scheduleAwait (fun state => { state with isAwaitPauseRequestHash := hash }) false

def doScheduleAwaitPauseTarget (hash : Nat) : Sched → Sched :=
  scheduleAwait (fun state => { state with isAwaitPauseTargetHash := hash }) true

def doScheduleAwaitUnpauseTarget (hash : Nat) : Sched → Sched :=
  scheduleAwait (fun state => { state with isAwaitPauseTargetHash := hash }) false

def doBlockOnDebugPause (v : Bool) (s : Sched) : Sched :=
  s.modifyState s.moduleStackIndex fun state => { state with blockOnDebugPause := v }

def doBlockOnLoadingPause (v : Bool) (s : Sched) : Sched :=
  s.modifyState s.moduleStackIndex fun state => { state with blockOnLoadingPause := v }

def beginFrameAdvance (s : Sched) : Sched :=
  let s := if s.isFrameAdvance then s
    else { s with isFrameAdvance := true, bypassDebugPause60 := 0 }
  if s.isPauseRequest DebugPause then s else s.requestPause DebugPause

def stepFrameAdvance (duration : Nat) (s : Sched) : Sched :=
  let duration60 := s.duration60 duration
  let s := if s.isFrameAdvance then s else s.beginFrameAdvance
  { s with bypassDebugPause60 := u32 (s.bypassDebugPause60 + duration60) }

def endFrameAdvance (s : Sched) : Sched :=
  { s.releasePause DebugPause with bypassDebugPause60 := 0, isFrameAdvance := false }

def callBind (bind : Bind) (s : Sched) : Sched :=
  match bind with
  | .input duration b l r => s.setCurrentInput duration b l r
  | .inputOr duration b l r => s.setCurrentInputOr duration b l r
  | .inputXor duration b l r => s.setCurrentInputXor duration b l r
  | .sleep duration => s.setSleepInput duration
  | .awaitPauseRequest hash => s.doScheduleAwaitPauseRequest hash
  | .awaitUnpauseRequest hash => s.doScheduleAwaitUnpauseRequest hash
  | .awaitPauseTarget hash => s.doScheduleAwaitPauseTarget hash
  | .awaitUnpauseTarget hash => s.doScheduleAwaitUnpauseTarget hash
  | .doBlockOnDebugPause v => s.doBlockOnDebugPause v
  | .doBlockOnLoadingPause v => s.doBlockOnLoadingPause v
  | .beginFrameAdvance => s.beginFrameAdvance
  | .stepFrameAdvance duration => s.stepFrameAdvance duration
  | .endFrameAdvance => s.endFrameAdvance
  | .requestPause hash => s.requestPause hash
  | .releasePause hash => s.releasePause hash
  | .abort reason => s.abortStackReq reason
  | .other => s

def getModule (name : String) (s : Sched) : Option Nat := s.modules.lookup name

/-- A module that fails to build is discarded on the spot, before anything refers to it,
so the engine is left as it was. -/
def buildOnceOrGetModule (name : String) (builds : Bool) (s : Sched) : Option Nat × Sched :=
  match s.getModule name with
  | some m => (some m, s)
  | none =>
    if builds then
      (some s.builtModules,
       { s with modules := s.modules ++ [(name, s.builtModules)]
                builtModules := s.builtModules + 1 })
    else (none, s)

/-- The rest of `pushExecModuleEntryPoint`, once slot `sp` has its initial state. -/
def enterSlot (sp m : Nat) (hasEntryPoint : Bool) (program : Script)
    (doImmediateExecute blockOnDebugPause : Bool) (s : Sched) : Sched :=
  if (s.moduleStack sp).asModule ≠ none then
    s.abortStackReq "[tas::schedule::pushExecModuleEntryPoint] sp module not null"
  else
    let s := s.setModule sp (some m)
    let s := s.modifyState sp fun state => { state with blockOnDebugPause := blockOnDebugPause }
    if hasEntryPoint = false then
      s.abortStackReq "[tas::schedule::pushExecModuleEntryPoint] cant resolve entrypoint"
    else
      let s := s.modifyCtx sp (ScriptContext.prepare program)
      let s := { s with moduleStackIndex := sp }
      if doImmediateExecute then { s with control := .ctxEnter 0 }
      else { s with isPlaybackBeginPending := true }

/-- The slot above an occupied top starts with its input, to avoid gaps. -/
def inheritOnPush (sp : Nat) (s : Sched) : Sched :=
  s.modifySlot (sp + 1) fun frame =>
    let frame := frame.resetState
    { frame with state :=
      { frame.state with
        input := (s.moduleStack sp).state.input
        playbackInputPassthroughMode := (s.moduleStack sp).state.playbackInputPassthroughMode } }

/-- `sp++` is not checked against the size of the array. -/
def pushExecModuleEntryPoint (m : Nat) (hasEntryPoint : Bool) (program : Script)
    (doImmediateExecute blockOnDebugPause : Bool) (s : Sched) : Sched :=
  let s := if s.getSP.asCtx.status = .active then s.trySuspendCtx else s
  let sp := s.moduleStackIndex
  if s.getSP.asModule = none then
    (s.modifySlot sp ModuleStackFrame.resetState).enterSlot sp m hasEntryPoint program
      doImmediateExecute blockOnDebugPause
  else if sp + 1 < MAX_MODULE_STACK_DEPTH then
    (s.inheritOnPush sp).enterSlot (sp + 1) m hasEntryPoint program
      doImmediateExecute blockOnDebugPause
  else { s with control := .fault }

/-- Build or reuse the module and push it; `caller` names the function in the reason. -/
def buildAndPush (caller name : String) (source : ScriptSource) (program : Script)
    (doImmediateExecute blockOnDebugPause : Bool) (s : Sched) : Sched :=
  match s.buildOnceOrGetModule name source.builds with
  | (none, s) => s.abortStackReq ("[tas::schedule::" ++ caller ++ "] module failed to build")
  | (some m, s) =>
    s.pushExecModuleEntryPoint m source.hasEntryPoint program doImmediateExecute blockOnDebugPause

/-- A file is read only when no module has its name yet. -/
def pushExecFile (caller filename : String) (source : ScriptSource) (program : Script)
    (doImmediateExecute blockOnDebugPause : Bool) (s : Sched) : Sched :=
  if s.getModule filename = none ∧ (source.fileExists = false ∨ source.readTextFileFails = true) then
    s.abortStackReq ("[tas::schedule::" ++ caller ++ "] unreadable")
  else s.buildAndPush caller filename source program doImmediateExecute blockOnDebugPause

def pushExecLocalFileModule : String → ScriptSource → Script → Bool → Bool → Sched → Sched :=
  pushExecFile "pushExecLocalFileModule"

def pushExecLocalFileModuleNXTas : String → ScriptSource → Script → Bool → Bool → Sched → Sched :=
  pushExecFile "pushExecLocalFileModuleNXTas"

def pushExecTextModule : String → ScriptSource → Script → Bool → Bool → Sched → Sched :=
  buildAndPush "pushExecTextModule"

/-- `"eval_%08x.as"`. -/
def evalModuleName (hash : Nat) : String :=
  let digits := Nat.toDigits 16 hash
  "eval_" ++ String.ofList (List.replicate (8 - digits.length) '0' ++ digits) ++ ".as"

def pushExecEval (hash : Nat) : ScriptSource → Script → Bool → Bool → Sched → Sched :=
  pushExecTextModule (evalModuleName hash)

def pushExec (e : Exec) (program : Script) (s : Sched) : Sched :=
  match e.bind with
  | .awaitExecFile filename =>
    s.pushExecLocalFileModule filename e.source program e.doImmediateExecute e.blockOnDebugPause
  | .awaitExecFileNXTas filename =>
    s.pushExecLocalFileModuleNXTas filename e.source program e.doImmediateExecute e.blockOnDebugPause
  | .awaitEval hash =>
    s.pushExecEval hash e.source program e.doImmediateExecute e.blockOnDebugPause

end Sched

end LotusKit.Schedule

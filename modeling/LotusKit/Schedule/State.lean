import Mathlib.Logic.Function.Basic
import Mathlib.Data.List.Basic
import Mathlib.Tactic.Simps.Basic
import Mathlib.Algebra.Group.Nat.Defs

/-! The scheduler's data: the stack of scripts of `schedule.hpp`, the AngelScript
contexts and modules it drives, and the pause manager it asks.

A running script enters the model as the sequence of binds it is going to call, because
the scheduler sees nothing else of it. `initModuleStack` creates every context at boot,
so a slot holds its context by value and the null tests on `asCtx` have no counterpart.
Gyro fields ride along in every copied input and are left out with the binds that set
them. -/

namespace LotusKit.Schedule

/-- Unsigned 32-bit arithmetic is arithmetic on naturals followed by this. -/
def u32 (n : Nat) : Nat := n % 2 ^ 32

theorem u32_of_lt {n : Nat} (small : n < 2 ^ 32) : u32 n = n := Nat.mod_eq_of_lt small

theorem u32_lt (n : Nat) : u32 n < 2 ^ 32 := Nat.mod_lt _ (by decide)

inductive InputDurationScalingStrategy where
  | fps60_1X
  | fps30_2X
  | fps20_3X
  deriving DecidableEq, Repr

/-- How many 60ths one frame of a script counts for. -/
def InputDurationScalingStrategy.factor : InputDurationScalingStrategy → Nat
  | .fps60_1X => 1
  | .fps30_2X => 2
  | .fps20_3X => 3

theorem InputDurationScalingStrategy.factor_pos (mode : InputDurationScalingStrategy) :
    0 < mode.factor := by
  cases mode <;> decide

inductive PlaybackInputPassthroughMode where
  | nullVanilla
  | playbackTasOnly
  | passthroughOr
  | passthroughXor
  deriving DecidableEq, Repr

structure AnalogStickState where
  mX : Int
  mY : Int
  deriving DecidableEq, Repr

/-- The 24 bytes of `PlaybackInput`, `RecordInput` and `NpadBaseState` that are copied
around: buttons and the two sticks. -/
structure PlaybackInput where
  buttons : BitVec 64
  lStick : AnalogStickState
  rStick : AnalogStickState
  deriving DecidableEq, Repr

def PlaybackInput.zero : PlaybackInput := ⟨0, ⟨0, 0⟩, ⟨0, 0⟩⟩

structure ModuleStackFrameScheduleState where
  input : PlaybackInput
  inputTTL60 : Nat
  awaitBegin60 : Nat
  isAwaitPauseRequestHash : Nat
  isAwaitPauseTargetHash : Nat
  blockOnDebugPause : Bool
  blockOnLoadingPause : Bool
  awaitPauseVal : Bool
  inputFPSMode : InputDurationScalingStrategy
  playbackInputPassthroughMode : PlaybackInputPassthroughMode

/-- `asEContextState`, without the deserialization state nothing here reaches. -/
inductive EContextState where
  | finished
  | suspended
  | aborted
  | exception
  | prepared
  | uninitialized
  | active
  | error
  deriving DecidableEq, Repr

/-- What the file system and the AngelScript compiler answer for one push. -/
structure ScriptSource where
  fileExists : Bool
  readTextFileFails : Bool
  builds : Bool
  hasEntryPoint : Bool

/-- The binds a script can call, other than those that push a script. A string key
reaches the scheduler only as `murmur32(key)`, so a key is its hash. -/
inductive Bind where
  | input (duration : Nat) (nextButtons : BitVec 64) (nextLStick nextRStick : AnalogStickState)
  | inputOr (duration : Nat) (nextButtons : BitVec 64) (nextLStick nextRStick : AnalogStickState)
  | inputXor (duration : Nat) (nextButtons : BitVec 64) (nextLStick nextRStick : AnalogStickState)
  | sleep (duration : Nat)
  | awaitPauseRequest (hash : Nat)
  | awaitUnpauseRequest (hash : Nat)
  | awaitPauseTarget (hash : Nat)
  | awaitUnpauseTarget (hash : Nat)
  | doBlockOnDebugPause (v : Bool)
  | doBlockOnLoadingPause (v : Bool)
  | beginFrameAdvance
  | stepFrameAdvance (duration : Nat)
  | endFrameAdvance
  | requestPause (hash : Nat)
  | releasePause (hash : Nat)
  | abort (reason : String)
  /-- Any bind that leaves the scheduler alone. -/
  | other

/-- The binds that push a nested script, with the C++ trailing arguments as they arrive. -/
inductive ExecBind where
  | awaitExecFile (filename : String)
  | awaitExecFileNXTas (filename : String)
  /-- `hash` is `murmur32` of the script text. -/
  | awaitEval (hash : Nat)

structure Exec where
  bind : ExecBind
  source : ScriptSource
  doImmediateExecute : Bool
  blockOnDebugPause : Bool

/-- What a context still has to run: the calls the script makes from here on. In
`exec e child rest` the child is what the pushed script does. -/
inductive Script where
  | done
  | throw
  | call (bind : Bind) (rest : Script)
  | exec (e : Exec) (child rest : Script)

/-- An AngelScript context: its state, the flags `Suspend` and `Abort` raise, and the
rest of its program. -/
structure ScriptContext where
  status : EContextState
  doSuspend : Bool
  doAbort : Bool
  program : Script

/-- `asModule` is the number of the module, counted in the order they were built. -/
structure ModuleStackFrame where
  asModule : Option Nat
  asCtx : ScriptContext
  state : ModuleStackFrameScheduleState

def MAX_MODULE_STACK_DEPTH : Nat := 12

/-- Where the C++ program stands. `ctxEnter d` is the label `CTX_ENTER` with
`deltaFrame60 = d`; at `boundary` the innermost context is between two statements and
looks at its flags; at `run` it runs its next statement; `fault` follows an access outside
`moduleStack`, and `crash` a second `Discard` of a module, after which the program has no
meaning. -/
inductive Control where
  | idle
  | ctxEnter (deltaFrame60 : Nat)
  | boundary
  | run
  | fault
  | crash
  deriving DecidableEq, Repr

/-- What an observer of the run sees: a context is executed, an input is scheduled, an
abort is requested. -/
inductive Event where
  | execute (slot : Nat)
  | input (slot duration60 : Nat) (given : PlaybackInput)
  | abortReq (reason : String)
  deriving DecidableEq, Repr

/-- A call of `asIScriptModule::Discard`, with the other slots that refer to the module at
that moment. -/
structure Discard where
  asModule : Nat
  holders : List Nat
  deriving DecidableEq, Repr

structure Sched where
  elapsedPlayback60 : Nat
  bypassDebugPause60 : Nat
  isPlaybackActive : Bool
  isPlaybackBeginPending : Bool
  isAbortReq : Bool
  isFrameAdvance : Bool
  abortReqReason : String
  moduleStack : Nat → ModuleStackFrame
  moduleStackIndex : Nat
  /-- The engine's modules by name. -/
  modules : List (String × Nat)
  builtModules : Nat
  discards : List Discard
  pauseRequestCount : Nat → Int
  targetPaused : Nat → Bool
  /-- The slots whose `Execute` is on the C++ stack, innermost first. -/
  running : List Nat
  control : Control
  events : List Event

/-- The zeroed static storage. Its `inputFPSMode` would be 0, which names no strategy, but
every push goes through `resetState` before anything reads it. -/
def ModuleStackFrameScheduleState.zero : ModuleStackFrameScheduleState where
  input := .zero
  inputTTL60 := 0
  awaitBegin60 := 0
  isAwaitPauseRequestHash := 0
  isAwaitPauseTargetHash := 0
  blockOnDebugPause := false
  blockOnLoadingPause := false
  awaitPauseVal := false
  inputFPSMode := .fps30_2X
  playbackInputPassthroughMode := .nullVanilla

/-- A slot after `initModuleStack`: zeroed, with a fresh context. -/
def ModuleStackFrame.empty : ModuleStackFrame where
  asModule := none
  asCtx := ⟨.uninitialized, false, false, .done⟩
  state := .zero

def Sched.init : Sched where
  elapsedPlayback60 := 0
  bypassDebugPause60 := 0
  isPlaybackActive := false
  isPlaybackBeginPending := false
  isAbortReq := false
  isFrameAdvance := false
  abortReqReason := ""
  moduleStack := fun _ => .empty
  moduleStackIndex := 0
  modules := []
  builtModules := 0
  discards := []
  pauseRequestCount := fun _ => 0
  targetPaused := fun _ => false
  running := []
  control := .idle
  events := []

namespace Sched
variable (s : Sched) (i j : Nat)

@[simps elapsedPlayback60 bypassDebugPause60 isPlaybackActive isPlaybackBeginPending isAbortReq
  isFrameAdvance abortReqReason moduleStackIndex modules builtModules discards pauseRequestCount
  targetPaused running control events]
def modifySlot (f : ModuleStackFrame → ModuleStackFrame) : Sched :=
  { s with moduleStack := Function.update s.moduleStack i (f (s.moduleStack i)) }

@[simp] theorem modifySlot_moduleStack (f : ModuleStackFrame → ModuleStackFrame) :
    (s.modifySlot i f).moduleStack j = if j = i then f (s.moduleStack i) else s.moduleStack j := by
  simp only [modifySlot, Function.update_apply]

@[simps! elapsedPlayback60 bypassDebugPause60 isPlaybackActive isPlaybackBeginPending isAbortReq
  isFrameAdvance abortReqReason moduleStackIndex modules builtModules discards pauseRequestCount
  targetPaused running control events]
def modifyState (f : ModuleStackFrameScheduleState → ModuleStackFrameScheduleState) : Sched :=
  s.modifySlot i fun frame => { frame with state := f frame.state }

@[simps! elapsedPlayback60 bypassDebugPause60 isPlaybackActive isPlaybackBeginPending isAbortReq
  isFrameAdvance abortReqReason moduleStackIndex modules builtModules discards pauseRequestCount
  targetPaused running control events]
def modifyCtx (f : ScriptContext → ScriptContext) : Sched :=
  s.modifySlot i fun frame => { frame with asCtx := f frame.asCtx }

@[simps! elapsedPlayback60 bypassDebugPause60 isPlaybackActive isPlaybackBeginPending isAbortReq
  isFrameAdvance abortReqReason moduleStackIndex modules builtModules discards pauseRequestCount
  targetPaused running control events]
def setModule (m : Option Nat) : Sched :=
  s.modifySlot i fun frame => { frame with asModule := m }

@[simps]
def emit (e : Event) : Sched := { s with events := s.events ++ [e] }

/-- `&moduleStack[moduleStackIndex]`. -/
abbrev getSP : ModuleStackFrame := s.moduleStack s.moduleStackIndex

end Sched

end LotusKit.Schedule

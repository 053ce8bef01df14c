import LotusKit.Lib.Scan
import LotusKit.Schedule.Binds
import Mathlib.Algebra.Group.Int.Defs

/-! `Record.cpp`. While a recording is active, the input of each frame is accumulated, and
put out as a line of text once another input comes.

`emitInputImpl` sends every line to the websocket, the debug log or a file. Here the lines
are collected; which of the three get them, and the modeline on screen, is left out. -/

namespace LotusKit.Tas
open LotusKit.Schedule LotusKit.Lib.Scan

/-- The names of `nxTASButton`, in the order in which they are put out. -/
inductive NxTasButton where
  | A | B | X | Y | L | R | ZL | ZR | PLUS | MINUS | DLEFT | DUP | DRIGHT | DDOWN | LSTICK | RSTICK
  deriving DecidableEq, Repr

namespace NxTasButton

def all : List NxTasButton :=
  [A, B, X, Y, L, R, ZL, ZR, PLUS, MINUS, DLEFT, DUP, DRIGHT, DDOWN, LSTICK, RSTICK]

/-- The value of the enum is `1 << bit`. -/
def bit : NxTasButton → Nat
  | A => 0
  | B => 1
  | X => 2
  | Y => 3
  | LSTICK => 4
  | RSTICK => 5
  | L => 6
  | R => 7
  | ZL => 8
  | ZR => 9
  | PLUS => 10
  | MINUS => 11
  | DLEFT => 12
  | DUP => 13
  | DRIGHT => 14
  | DDOWN => 15

def name : NxTasButton → List Char
  | A => "KEY_A".toList
  | B => "KEY_B".toList
  | X => "KEY_X".toList
  | Y => "KEY_Y".toList
  | L => "KEY_L".toList
  | R => "KEY_R".toList
  | ZL => "KEY_ZL".toList
  | ZR => "KEY_ZR".toList
  | PLUS => "KEY_PLUS".toList
  | MINUS => "KEY_MINUS".toList
  | DLEFT => "KEY_DLEFT".toList
  | DUP => "KEY_DUP".toList
  | DRIGHT => "KEY_DRIGHT".toList
  | DDOWN => "KEY_DDOWN".toList
  | LSTICK => "KEY_LSTICK".toList
  | RSTICK => "KEY_RSTICK".toList

end NxTasButton

/-- The named buttons among the bits; the bits above 15 have no name. -/
def namedButtons (buttons : BitVec 64) : List NxTasButton :=
  NxTasButton.all.filter fun key => buttons.getLsbD key.bit

/-- `buttonsStr.c_str()+1`. -/
def buttonsStr (buttonsSep : Char) (keys : List NxTasButton) : List Char :=
  let str := keys.flatMap fun key => buttonsSep :: key.name
  (if str = [] then " NONE".toList else str).tail

/-- The fixed parts of a script and of a call. -/
def scriptStart : List Char := "void main() \x7b ".toList

def scriptEnd : List Char := "\x7d\n".toList

def callStart : List Char := "tas::input(".toList

def argSep : List Char := ", ".toList

def callEnd : List Char := ");\n".toList

/-- The button argument of an emitted call. -/
inductive ButtonsArg where
  | enum (keys : List NxTasButton)
  | raw (buttons : Int)
  deriving DecidableEq, Repr

def ButtonsArg.text : ButtonsArg → List Char
  | enum keys => buttonsStr '|' keys
  | raw buttons => showInt buttons

/-- The four forms of an emitted call, by the arguments after the duration. -/
inductive InputArgs where
  | none
  | buttons (b : ButtonsArg)
  | left (b : ButtonsArg) (lStick : AnalogStickState)
  | both (b : ButtonsArg) (lStick rStick : AnalogStickState)
  deriving DecidableEq, Repr

/-- `"%d,%d"`. -/
def stickText (sep : Char) (stick : AnalogStickState) : List Char :=
  showInt stick.mX ++ sep :: showInt stick.mY

def InputArgs.text : InputArgs → List Char
  | none => []
  | buttons b => argSep ++ b.text
  | left b l => argSep ++ b.text ++ argSep ++ stickText ',' l
  | both b l r =>
    argSep ++ b.text ++ argSep ++ stickText ',' l ++ argSep ++ stickText ',' r

/-- A text given to `emitInputImpl`. -/
inductive Line where
  | literal (text : List Char)
  | nxTas (fr : Int) (keys : List NxTasButton) (lStick rStick : AnalogStickState)
  | asInput (duration : Int) (args : InputArgs)
  deriving DecidableEq, Repr

/-- What the format string asks for. -/
def Line.format : Line → List Char
  | literal text => text
  | nxTas fr keys l r =>
    showInt fr ++ ' ' :: buttonsStr ';' keys ++ ' ' :: stickText ';' l ++ ' ' :: stickText ';' r ++
      ['\n']
  | asInput duration args => callStart ++ showInt duration ++ args.text ++ callEnd

/-- `sizeof(buf)`. -/
def bufSize : Nat := 200

/-- `SNPrintf` cuts off what does not fit. -/
def Line.text : Line → List Char
  | literal text => text
  | line => line.format.take (bufSize - 1)

/-- A `u32` printed with `%d`. -/
def asS32 (n : Nat) : Int := if n < 2 ^ 31 then n else (n : Int) - 2 ^ 32

def u32Sub (a b : Nat) : Nat := u32 (a + 2 ^ 32 - b)

structure Record where
  currentInput : PlaybackInput
  accumulatorInput : PlaybackInput
  accumulatedInput60 : Nat
  accumulatedRecord60 : Nat
  isRecordActive : Bool
  inputFPSMode : InputDurationScalingStrategy
  useFormat_nxTASAll : Bool
  useFormat_nxTASButtons : Bool
  emitted : List Line

namespace Record

def emitInputImpl (line : Line) (r : Record) : Record := { r with emitted := r.emitted ++ [line] }

/-- The frame numbers of the nx-TAS loop. -/
def nxTasLabels (outputTimestamp outputDuration : Nat) : List Nat :=
  let first := u32Sub (u32Sub outputTimestamp outputDuration) 1
  let limit := u32Sub outputTimestamp 1
  (List.range (limit - first)).map (first + ·)

/-- A stick argument is left out when it and all that follow are zero. -/
def inputArgs (b : ButtonsArg) (output : PlaybackInput) : InputArgs :=
  if output.rStick.mX ≠ 0 ∨ output.rStick.mY ≠ 0 then .both b output.lStick output.rStick
  else if output.lStick.mX ≠ 0 ∨ output.lStick.mY ≠ 0 then .left b output.lStick
  else if output.buttons ≠ 0 then .buttons b
  else .none

def emitCompletedInput (output : PlaybackInput) (outputDuration60 : Nat) (r : Record) : Record :=
  if outputDuration60 = 0 then r
  else
    let outputDuration := outputDuration60 / r.inputFPSMode.factor
    let outputTimestamp := r.accumulatedRecord60 / r.inputFPSMode.factor
    let keys := namedButtons output.buttons
    if r.useFormat_nxTASAll then
      (nxTasLabels outputTimestamp outputDuration).foldl
        (fun r fr => r.emitInputImpl (.nxTas (asS32 fr) keys output.lStick output.rStick)) r
    else if r.useFormat_nxTASButtons then
      r.emitInputImpl (.asInput (asS32 outputDuration) (inputArgs (.enum keys) output))
    else r.emitInputImpl (.asInput (asS32 outputDuration) (inputArgs (.raw output.buttons.toInt) output))

def calcCompletedInput (remainderInit60 : Nat) (r : Record) : Record :=
  ({ r with
      accumulatedInput60 := remainderInit60
      accumulatorInput := r.currentInput } : Record).emitCompletedInput r.accumulatorInput
    r.accumulatedInput60

def isEquivalent (a b : PlaybackInput) : Bool :=
  a.buttons = b.buttons ∧ a.lStick = b.lStick ∧ a.rStick = b.rStick

/-- `Record::calc`. -/
def recordCalc (deltaFrame60 : Nat) (r : Record) : Record :=
  if r.isRecordActive = false then r
  else
    let r := { r with accumulatedRecord60 := u32 (r.accumulatedRecord60 + deltaFrame60) }
    if isEquivalent r.currentInput r.accumulatorInput then
      { r with accumulatedInput60 := u32 (r.accumulatedInput60 + deltaFrame60) }
    else r.calcCompletedInput deltaFrame60

def beginDumpImpl (r : Record) : Record :=
  ({ r with
      accumulatedInput60 := 0
      accumulatedRecord60 := 0
      isRecordActive := true } : Record).emitInputImpl
    (.literal (if r.useFormat_nxTASAll then [] else scriptStart))

def endDump (r : Record) : Record :=
  let r := ({ r with isRecordActive := false }).calcCompletedInput 0
  r.emitInputImpl (.literal (if r.useFormat_nxTASAll then [] else scriptEnd))

/-- The hook that copies the controller's state, each frame before `Record::calc`. -/
def applyCurrentInput (src : PlaybackInput) (r : Record) : Record := { r with currentInput := src }

/-- One frame of a recording. -/
def frame (deltaFrame60 : Nat) (r : Record) (src : PlaybackInput) : Record :=
  (r.applyCurrentInput src).recordCalc deltaFrame60

/-- A recording of one input a frame, each frame as long as the mode says. -/
def dump (inputs : List PlaybackInput) (r : Record) : Record :=
  (inputs.foldl (frame r.inputFPSMode.factor) r.beginDumpImpl).endDump

end Record

end LotusKit.Tas

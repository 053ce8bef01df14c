import LotusKit.Hotkey.Trigger
import Mathlib.Data.List.FinRange
import Mathlib.Logic.Function.Basic

/-! The table of hotkeys, and what binds and unbinds them. -/

namespace LotusKit.Hotkey

structure HotkeyBinding where
  buttons : BitVec 64
  arg : List Char
  /-- 0: none, 1: buttons, 2: keyboard -/
  bindType : Nat
  /-- 0: none, 1: AS file, 2: nxtas file, 3: AS eval -/
  execType : Nat
  bindCooldownRemaining : Nat
  deriving DecidableEq

def MAX_HOTKEYS : Nat := 12

abbrev Bindings := Fin MAX_HOTKEYS → HotkeyBinding

/-- `bindings[MAX_HOTKEYS] = {0}` -/
def initialBindings : Bindings := fun _ => ⟨0, [], 0, 0, 0⟩

/-- `nn::hid::KeyboardState::mKeys` -/
abbrev KeyboardState := Fin 4 → BitVec 64

def storageBits : Nat := 64

/-- Whether bit `trigBit` is set. -/
def isKeySet (keyboard : KeyboardState) (trigBit : BitVec 8) : Bool :=
  keyboard ⟨trigBit.toNat / storageBits, by unfold storageBits; omega⟩ &&&
    (1#64 <<< (trigBit.toNat % storageBits)) ≠ 0

/-- The loop over the bytes of a trigger. -/
def matchTrigger (keyboard : KeyboardState) : List (BitVec 8) → Bool
  | [] => true
  | trigBit :: rest =>
    if trigBit = 0 then true
    else if isKeySet keyboard trigBit then matchTrigger keyboard rest
    else false

namespace Bindings
variable (s : Bindings)

def unassign (hk : Option (Fin MAX_HOTKEYS)) : Bindings :=
  match hk with
  | none => s
  | some i => Function.update s i ⟨0, [], 0, 0, 0⟩

def getUnassigned : Option (Fin MAX_HOTKEYS) :=
  (List.finRange MAX_HOTKEYS).find? fun i => (s i).bindType = 0

def getByButtons (buttons : BitVec 64) : Option (Fin MAX_HOTKEYS) :=
  (List.finRange MAX_HOTKEYS).find? fun i => (s i).bindType = 1 && (s i).buttons = buttons

/-- What a slot does with the keyboard. -/
def matchesKeyboard (keyboard : KeyboardState) (i : Fin MAX_HOTKEYS) : Bool :=
  !((s i).bindType ≠ 2 || (s i).buttons = 0) && matchTrigger keyboard ((List.range 8).map (byteAt (s i).buttons))

def getByKeyboardState (keyboard : KeyboardState) : Option (Fin MAX_HOTKEYS) :=
  (List.finRange MAX_HOTKEYS).find? (s.matchesKeyboard keyboard)

/-- `getByKeyboardTrigger`, after the conversion of the trigger. -/
def getByKeyboardButtons (buttons : BitVec 64) : Option (Fin MAX_HOTKEYS) :=
  (List.finRange MAX_HOTKEYS).find? fun i => (s i).bindType = 2 && (s i).buttons = buttons

/-- `none` where the conversion writes behind its result. -/
def getByKeyboardTrigger (trigger : List Char) : Option (Option (Fin MAX_HOTKEYS)) :=
  (keyboardTriggerToButtons trigger).map s.getByKeyboardButtons

/-- The fields that a bind writes to an unassigned slot. -/
def fill (buttons : BitVec 64) (bindType execType : Nat) (arg : List Char) : Bindings :=
  match s.getUnassigned with
  | none => s
  | some i =>
    Function.update s i { s i with buttons := buttons, bindType := bindType, execType := execType, arg := arg }

def unbindButtons (buttons : BitVec 64) : Bindings := s.unassign (s.getByButtons buttons)

def bindButtons (execType : Nat) (buttons : BitVec 64) (arg : List Char) : Bindings :=
  (s.unbindButtons buttons).fill buttons 1 execType arg

def bindButtonsExecFile (buttons : BitVec 64) (filename : List Char) : Bindings := s.bindButtons 1 buttons filename

def bindButtonsExecFileNXTas (buttons : BitVec 64) (filename : List Char) : Bindings :=
  s.bindButtons 2 buttons filename

def bindButtonsEval (buttons : BitVec 64) (scriptText : List Char) : Bindings := s.bindButtons 3 buttons scriptText

def unbindKeyboard (trigger : List Char) : Option Bindings := (s.getByKeyboardTrigger trigger).map s.unassign

/-- The trigger is converted once more for the slot; it fits then as it did before. -/
def bindKeyboard (execType : Nat) (trigger arg : List Char) : Option Bindings := do
  let s ← s.unbindKeyboard trigger
  match s.getUnassigned with
  | none => return s
  | some _ =>
    let buttons ← keyboardTriggerToButtons trigger
    return s.fill buttons 2 execType arg

def bindKeyboardExecFile (trigger filename : List Char) : Option Bindings := s.bindKeyboard 1 trigger filename

def bindKeyboardExecFileNXTas (trigger filename : List Char) : Option Bindings := s.bindKeyboard 2 trigger filename

def bindKeyboardEval (trigger scriptText : List Char) : Option Bindings := s.bindKeyboard 3 trigger scriptText

end Bindings

inductive Call where
  | bindButtonsExecFile (buttons : BitVec 64) (filename : List Char)
  | bindButtonsExecFileNXTas (buttons : BitVec 64) (filename : List Char)
  | bindButtonsEval (buttons : BitVec 64) (scriptText : List Char)
  | unbindButtons (buttons : BitVec 64)
  | bindKeyboardExecFile (trigger filename : List Char)
  | bindKeyboardExecFileNXTas (trigger filename : List Char)
  | bindKeyboardEval (trigger scriptText : List Char)
  | unbindKeyboard (trigger : List Char)

/-- `none` is a write behind the result of the conversion. -/
def Bindings.call (s : Bindings) : Call → Option Bindings
  | .bindButtonsExecFile buttons filename => some (s.bindButtonsExecFile buttons filename)
  | .bindButtonsExecFileNXTas buttons filename => some (s.bindButtonsExecFileNXTas buttons filename)
  | .bindButtonsEval buttons scriptText => some (s.bindButtonsEval buttons scriptText)
  | .unbindButtons buttons => some (s.unbindButtons buttons)
  | .bindKeyboardExecFile trigger filename => s.bindKeyboardExecFile trigger filename
  | .bindKeyboardExecFileNXTas trigger filename => s.bindKeyboardExecFileNXTas trigger filename
  | .bindKeyboardEval trigger scriptText => s.bindKeyboardEval trigger scriptText
  | .unbindKeyboard trigger => s.unbindKeyboard trigger

end LotusKit.Hotkey

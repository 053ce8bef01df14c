import LotusKit.Editor.Lines

/-! What the editor can hold, and the optimizer, which merges inputs that follow each other. -/

namespace LotusKit.Editor
open LotusKit.Lib LotusKit.Lib.Regex

def BUTTONS : List (List Char) :=
  ["A".toList, "B".toList, "X".toList, "Y".toList, "L".toList, "R".toList, "ZL".toList, "ZR".toList,
    "PLUS".toList, "MINUS".toList, "DLEFT".toList, "DRIGHT".toList, "DUP".toList, "DDOWN".toList]

namespace Numbers
variable (N : Numbers)

/-- A positive integer. -/
def Positive (x : N.Number) : Prop := ∃ s e, N.shortest x = .finite false s e ∧ 0 ≤ e

/-- An integer that is not negative. -/
def Natural (x : N.Number) : Prop := N.shortest x = .zero ∨ N.Positive x

/-- An integer of digits only. -/
def Counts (x : N.Number) : Prop := N.Natural x ∧ (N.shortest x).Plain

end Numbers

variable {N : Numbers}

def Stick.Whole (s : Stick N) : Prop := N.Whole s.x ∧ N.Whole s.y

/-- Printed without an exponent. -/
def Stick.Plain (s : Stick N) : Prop := (N.shortest s.x).Plain ∧ (N.shortest s.y).Plain

/-- A name that a script can declare. -/
def Identifier (name : List Char) : Prop :=
  (∀ c ∈ name, isWordChar c = true) ∧ ∃ c ∈ name.head?, c.isDigit = false

namespace Frame

/-- All of a frame is as the editor has it, a duration excepted. -/
def Shaped : Frame N → Prop
  | input _ buttons lstick rstick =>
    (buttons.Nodup ∧ ∀ btn ∈ buttons, btn ∈ BUTTONS) ∧ lstick.Whole ∧ rstick.Whole
  | comment text => trim text = text ∧ '\n' ∉ text
  | loop_start variable_ count => Identifier variable_ ∧ N.Natural count
  | loop_end => True
  | gyro_set orientation x y z =>
    (orientation ≠ [] ∧ ∀ c ∈ orientation, c.isUpper = true) ∧ N.Finite x ∧ N.Finite y ∧ N.Finite z
  | gyro_clear => True
  | pos_rot x y z rot => (∀ value ∈ x :: y :: z :: rot, N.Finite value) ∧ rot.length = 9
  | exec_file filename => filename ≠ [] ∧ '"' ∉ filename

/-- The duration of an input is a positive integer. -/
def Timed : Frame N → Prop
  | input duration _ _ _ => N.Positive duration
  | _ => True

/-- A frame that the editor can hold. -/
def Held (f : Frame N) : Prop := f.Shaped ∧ f.Timed

/-- The lines of the frame are read as the frame. -/
def Clean : Frame N → Prop
  | input duration _ lstick rstick => N.Counts duration ∧ lstick.Plain ∧ rstick.Plain
  | comment text =>
    (∀ c ∈ text, isDot c = true) ∧
      ∀ r ∈ [rMainStart, rExecFile, rGyroClear, rGyroRot, rPosRot], r.test (trim ("// ".toList ++ text)) = false
  | loop_start _ count => N.Counts count
  | gyro_set _ x y z => (N.shortest x).Plain ∧ (N.shortest y).Plain ∧ (N.shortest z).Plain
  | exec_file filename =>
    '\n' ∉ filename ∧
      rMainStart.test ("tas::awaitExecFile(\"sdcard:/totk_lotuskit/".toList ++ filename ++ "\");".toList) = false
  | _ => True

end Frame

/-- Loops are closed as often as they are opened, and not before. -/
def balancedFrom : List (Frame N) → (loopDepth : Nat) → Prop
  | [], loopDepth => loopDepth = 0
  | .loop_start _ _ :: frames, loopDepth => balancedFrom frames (loopDepth + 1)
  | .loop_end :: frames, loopDepth => 0 < loopDepth ∧ balancedFrom frames (loopDepth - 1)
  | _ :: frames, loopDepth => balancedFrom frames loopDepth

/-- A list of frames that the editor can hold, with its loops in balance. -/
structure FrameList (N : Numbers) where
  frames : List (Frame N)
  held : ∀ f ∈ frames, f.Held
  balanced : balancedFrom frames 0

section Optimizer
variable {frames : List (Frame N)} {current : Option (Current N)}

/-- What holds of every frame, whatever its duration, holds of what comes out. -/
theorem forall_optimizeLoop {P : Frame N → Prop}
    (lasts : ∀ c duration, P (Current.frame c) → P (Current.frame { c with duration }))
    (each : ∀ f ∈ frames, P f) (open_ : ∀ c ∈ current, P c.frame) : ∀ f ∈ optimizeLoop frames current, P f := by
  have pending : ∀ f ∈ (current.map Current.frame).toList, P f := by
    intro f member
    obtain ⟨c, own, rfl⟩ := Option.map_eq_some_iff.mp (Option.mem_toList.mp member)
    exact open_ c own
  induction frames generalizing current with
  | nil => exact pending
  | cons next frames ih =>
    have rest : ∀ f ∈ frames, P f := fun f member => each f (List.mem_cons_of_mem next member)
    have own : P next := each next List.mem_cons_self
    have closed := @ih none rest nofun nofun
    cases next with
    | input duration buttons lstick rstick =>
      have fresh := @ih (some ⟨duration, buttons, lstick, rstick⟩) rest
        (by rintro c ⟨⟩; exact own) (by rintro f (_ | ⟨_, ⟨⟩⟩); exact own)
      unfold optimizeLoop
      cases current with
      | none => exact fresh
      | some c =>
        have held : P c.frame := open_ c rfl
        simp only
        split
        next =>
          apply ih rest
          · rintro c' ⟨⟩
            exact lasts c _ held
          · rintro f (_ | ⟨_, ⟨⟩⟩)
            exact lasts c _ held
        next =>
          intro f member
          rcases List.mem_cons.mp member with rfl | later
          · exact held
          · exact fresh f later
    | _ =>
      intro f member
      rcases List.mem_append.mp member with before | behind
      · exact pending f before
      · rcases List.mem_cons.mp behind with rfl | later
        · exact own
        · exact closed f later

theorem balancedFrom_pending (loopDepth : Nat) :
    balancedFrom ((current.map Current.frame).toList ++ frames) loopDepth ↔ balancedFrom frames loopDepth := by
  cases current with
  | none => exact Iff.rfl
  | some c => exact Iff.rfl

theorem balancedFrom_optimizeLoop (loopDepth : Nat) :
    balancedFrom (optimizeLoop frames current) loopDepth ↔ balancedFrom frames loopDepth := by
  induction frames generalizing current loopDepth with
  | nil =>
    have pending := @balancedFrom_pending N [] current loopDepth
    rwa [List.append_nil] at pending
  | cons next frames ih =>
    cases next with
    | input duration buttons lstick rstick =>
      unfold optimizeLoop
      cases current with
      | none => exact ih loopDepth
      | some c =>
        simp only
        split
        · exact ih loopDepth
        · exact ih loopDepth
    | loop_start variable_ count => exact (balancedFrom_pending loopDepth).trans (ih (loopDepth + 1))
    | loop_end => exact (balancedFrom_pending loopDepth).trans (and_congr_right fun _ => ih (loopDepth - 1))
    | _ => exact (balancedFrom_pending loopDepth).trans (ih loopDepth)

variable (fs : FrameList N)

theorem FrameList.shaped : ∀ f ∈ getOptimizedFrames fs.frames, f.Shaped :=
  forall_optimizeLoop (fun _ _ shaped => shaped) (fun f member => (fs.held f member).1) nofun

theorem FrameList.balanced_optimized : balancedFrom (getOptimizedFrames fs.frames) 0 :=
  (balancedFrom_optimizeLoop 0).mpr fs.balanced

end Optimizer

end LotusKit.Editor

import LotusKit.Editor.Import
import LotusKit.Editor.Reorder
import LotusKit.Lib.Undo

/-! The controls of the editor: what each does to the frames, to the selection and to the
snapshots that undo goes back to. -/

namespace LotusKit.Editor
open LotusKit.Lib

variable {N : Numbers}

/-- What is made of numbers beside sums: the `null` that JSON leaves of some, `Math.max` and
`Math.min`. -/
structure Arithmetic (N : Numbers) where
  null : N.Number
  max : N.Number → N.Number → N.Number
  min : N.Number → N.Number → N.Number

variable (A : Arithmetic N)

section Json

/-- A number that is written and read again. -/
def Arithmetic.json (x : N.Number) : N.Number :=
  match N.shortest x with
  | .zero => x
  | .finite _ _ _ => x
  | .nan => A.null
  | .infinity _ => A.null

/-- Left as it is when it is written and read. -/
def Arithmetic.Kept (x : N.Number) : Prop := N.Finite x ∨ x = A.null

theorem Arithmetic.kept_json (x : N.Number) : A.Kept (A.json x) := by
  unfold Arithmetic.json
  split
  next zero => exact .inl (.inl zero)
  next negative s e finite => exact .inl (.inr ⟨negative, s, e, finite⟩)
  next => exact .inr rfl
  next => exact .inr rfl

variable {A}

theorem Arithmetic.json_of_kept {x : N.Number} (kept : A.Kept x) : A.json x = x := by
  unfold Arithmetic.json
  rcases kept with (zero | ⟨negative, s, e, finite⟩) | rfl
  · rw [zero]
  · rw [finite]
  · split
    · rfl
    · rfl
    · rfl
    · rfl

variable (A)

def Stick.map (f : N.Number → N.Number) (s : Stick N) : Stick N := ⟨f s.x, f s.y⟩

/-- Every number changed, and all else left. -/
def Frame.map (f : N.Number → N.Number) : Frame N → Frame N
  | input duration buttons lstick rstick => input (f duration) buttons (lstick.map f) (rstick.map f)
  | comment text => comment text
  | loop_start variable_ count => loop_start variable_ (f count)
  | loop_end => loop_end
  | gyro_set orientation x y z => gyro_set orientation (f x) (f y) (f z)
  | gyro_clear => gyro_clear
  | pos_rot x y z rot => pos_rot (f x) (f y) (f z) (rot.map f)
  | exec_file filename => exec_file filename

def Frame.numbers : Frame N → List N.Number
  | input duration _ lstick rstick => [duration, lstick.x, lstick.y, rstick.x, rstick.y]
  | loop_start _ count => [count]
  | gyro_set _ x y z => [x, y, z]
  | pos_rot x y z rot => x :: y :: z :: rot
  | _ => []

theorem Frame.map_eq_self {f : N.Number → N.Number} {frame : Frame N} (fixed : ∀ x ∈ frame.numbers, f x = x) :
    frame.map f = frame := by
  cases frame with
  | input duration buttons lstick rstick =>
    simp only [numbers, List.forall_mem_cons] at fixed
    obtain ⟨first, lx, ly, rx, ry, -⟩ := fixed
    simp only [Frame.map, Stick.map, first, lx, ly, rx, ry]
  | comment text => rfl
  | loop_start variable_ count =>
    rw [Frame.map, fixed count List.mem_cons_self]
  | loop_end => rfl
  | gyro_set orientation x y z =>
    simp only [numbers, List.forall_mem_cons] at fixed
    obtain ⟨x_, y_, z_, -⟩ := fixed
    rw [Frame.map, x_, y_, z_]
  | gyro_clear => rfl
  | pos_rot x y z rot =>
    simp only [numbers, List.forall_mem_cons] at fixed
    obtain ⟨x_, y_, z_, rest⟩ := fixed
    have same : rot.map f = rot := (List.map_congr_left rest).trans (List.map_id rot)
    rw [Frame.map, x_, y_, z_, same]
  | exec_file filename => rfl

theorem Frame.numbers_map (f : N.Number → N.Number) (frame : Frame N) : (frame.map f).numbers = frame.numbers.map f := by
  cases frame with
  | input duration buttons lstick rstick => rfl
  | comment text => rfl
  | loop_start variable_ count => rfl
  | loop_end => rfl
  | gyro_set orientation x y z => rfl
  | gyro_clear => rfl
  | pos_rot x y z rot => rfl
  | exec_file filename => rfl

/-- No number of the frames is lost when they are written and read. -/
def Stable (frames : List (Frame N)) : Prop := ∀ frame ∈ frames, ∀ x ∈ frame.numbers, A.Kept x

/-- A snapshot is a text; this is what is read from it. Sets are written as arrays and read as
sets again. -/
structure Snapshot where
  frames : List (Frame N)
  stable : Stable A frames

/-- `JSON.stringify(frames, ..)` -/
def Snapshot.of (frames : List (Frame N)) : Snapshot A where
  frames := frames.map fun frame => frame.map A.json
  stable := by
    intro frame inside x number
    obtain ⟨own, -, rfl⟩ := List.mem_map.mp inside
    rw [Frame.numbers_map] at number
    obtain ⟨y, -, rfl⟩ := List.mem_map.mp number
    exact A.kept_json y

variable {A}

theorem Snapshot.frames_of {frames : List (Frame N)} (stable : Stable A frames) :
    (Snapshot.of A frames).frames = frames := by
  have fixed : ∀ frame ∈ frames, frame.map A.json = frame := fun frame inside =>
    Frame.map_eq_self fun x number => Arithmetic.json_of_kept (stable frame inside x number)
  exact (List.map_congr_left fixed).trans (List.map_id frames)

end Json

inductive Side where
  | lstick
  | rstick
  deriving DecidableEq

inductive Axis where
  | x
  | y
  deriving DecidableEq

/-- The fields that have a control of their own. -/
inductive Field where
  | text
  | variable_
  | count
  | orientation
  | x
  | y
  | z
  | filename
  deriving DecidableEq

namespace Frame

def isInput : Frame N → Bool
  | input _ _ _ _ => true
  | _ => false

def setStick (side : Side) (change : Stick N → Stick N) : Frame N → Frame N
  | input duration buttons lstick rstick =>
    match side with
    | .lstick => input duration buttons (change lstick) rstick
    | .rstick => input duration buttons lstick (change rstick)
  | frame => frame

/-- `none` where the row has no such control. -/
def updateProp (prop : Field) (value : List Char) (frame : Frame N) : Option (Frame N) :=
  match frame, prop with
  | comment _, .text => some (comment value)
  | loop_start _ count, .variable_ => some (loop_start value count)
  | loop_start variable_ _, .count => some (loop_start variable_ (N.parseFloat value))
  | gyro_set _ x y z, .orientation => some (gyro_set value x y z)
  | gyro_set orientation _ y z, .x => some (gyro_set orientation (N.parseFloat value) y z)
  | gyro_set orientation x _ z, .y => some (gyro_set orientation x (N.parseFloat value) z)
  | gyro_set orientation x y _, .z => some (gyro_set orientation x y (N.parseFloat value))
  | exec_file _, .filename => some (exec_file value)
  | _, _ => none

/-- `value.split(',').map(s => parseFloat(s.trim()))` -/
def parts (value : List Char) : List N.Number := (value.splitOn ',').map fun s => N.parseFloat (trim s)

def updatePosString (value : List Char) : Frame N → Option (Frame N)
  | pos_rot x y z rot =>
    match parts value with
    | x :: y :: z :: _ => some (pos_rot x y z rot)
    | _ => some (pos_rot x y z rot)
  | _ => none

def updateRotString (value : List Char) : Frame N → Option (Frame N)
  | pos_rot x y z rot => some (pos_rot x y z (if 9 ≤ (parts (N := N) value).length then (parts value).take 9 else rot))
  | _ => none

def updateDuration (val : Int) : Frame N → Frame N
  | input duration buttons lstick rstick =>
    input (A.max (N.ofInt 1) (N.add duration (N.ofInt val))) buttons lstick rstick
  | frame => frame

def toggleButton (btn : List Char) : Frame N → Option (Frame N)
  | input duration buttons lstick rstick =>
    some (input duration (if btn ∈ buttons then buttons.filter (· ≠ btn) else buttons ++ [btn]) lstick rstick)
  | _ => none

end Frame

end LotusKit.Editor

import LotusKit.Editor.Controls

/-! The editor as it is used: every control, and the keys. -/

namespace LotusKit.Editor
open LotusKit.Lib

variable {N : Numbers} {A : Arithmetic N}

def MAX_HISTORY : Nat := 50

/-- The stacks have their top in front. -/
structure Session (A : Arithmetic N) where
  frames : List (Frame N)
  selectedIndices : List Nat
  history : List (Snapshot A)
  redoStack : List (Snapshot A)
  internalClipboard : Option (Snapshot A)
  draggedIndices : List Nat
  dragTargetIndex : Option Nat
  dragTargetPosition : TargetPosition
  isSelectionDrag : Bool
  isDragging : Side → Bool

namespace Session
variable (s : Session A)

def saveHistory : Session A :=
  { s with history := Trail.remember MAX_HISTORY (Snapshot.of A s.frames) s.history, redoStack := [] }

def restoreState (snapshot : Snapshot A) : Session A := { s with frames := snapshot.frames, selectedIndices := [] }

def undo : Session A :=
  match s.history with
  | [] => s
  | state :: history =>
    { s with history := history, redoStack := Snapshot.of A s.frames :: s.redoStack }.restoreState state

def redo : Session A :=
  match s.redoStack with
  | [] => s
  | state :: redoStack =>
    { s with history := Snapshot.of A s.frames :: s.history, redoStack := redoStack }.restoreState state

/-- `selectedIndices.add(index)` -/
def select (index : Nat) : Session A :=
  if index ∈ s.selectedIndices then s else { s with selectedIndices := s.selectedIndices ++ [index] }

/-- Behind the selection, or at the end. -/
def insertIndex : Nat :=
  match s.selectedIndices.max? with
  | some last => last + 1
  | none => s.frames.length

/-- All of the frames are replaced, once they are saved. -/
def saveAndSet (frames : List (Frame N)) (selectedIndices : List Nat) : Session A :=
  { s.saveHistory with frames := frames, selectedIndices := selectedIndices }

def insertAfterSelection (item : List (Frame N)) : Session A := s.saveAndSet (splice s.insertIndex 0 item s.frames) []

/-- A row is changed, once the frames are saved; `none` where there is no such control. -/
def updateRow (index : Nat) (change : Frame N → Option (Frame N)) : Option (Session A) := do
  let frame ← s.frames[index]?
  let frame ← change frame
  return s.saveAndSet (s.frames.set index frame) s.selectedIndices

/-- The sticks of the selected input frames; `none` where a row is missing. -/
def setSticks (side : Side) (change : Stick N → Stick N) : Option (Session A) := do
  let frames ← s.selectedIndices.foldlM (fun (frames : List (Frame N)) (idx : Nat) => do
    let frame ← frames[idx]?
    return frames.set idx (frame.setStick side change)) s.frames
  return { s with frames := frames }

end Session

/-- `{ type: 'input', duration: 1, buttons: new Set(), .. }` -/
def newRow : Frame N := .input (N.ofInt 1) [] ⟨N.ofInt 0, N.ofInt 0⟩ ⟨N.ofInt 0, N.ofInt 0⟩

inductive Event (N : Numbers) where
  -- selecting and dragging rows
  | handleRowMouseDown (index : Nat) (ctrlKey : Bool)
  | handleRowMouseEnter (index : Nat) (ctrlKey : Bool)
  | mouseup
  | handleDragStart (index : Nat)
  | handleDragOver (index : Nat) (position : TargetPosition)
  | handleDrop
  -- the buttons of the toolbar
  | addRow
  | addGyroSet
  | addGyroClear
  | addPosRot
  | addExecFile
  | addComment (text : List Char)
  | addLoop
  | applyPreset (code : List Char)
  | compactTableUI
  | confirmImport (text : List Char)
  -- the controls of a row
  | updateProp (index : Nat) (prop : Field) (value : List Char)
  | updatePosString (index : Nat) (value : List Char)
  | updateRotString (index : Nat) (value : List Char)
  | updateDuration (index : Nat) (val : Int)
  | toggleButton (index : Nat) (btn : List Char)
  -- the sticks, by typing and by the mouse, whose place is rounded and clamped
  | updateStickManual (side : Side) (ax : Axis) (value : List Char)
  | stickMouseDown (side : Side) (fx fy : N.Number)
  | stickMouseMove (side : Side) (fx fy : N.Number)
  | stickMouseLeave (side : Side)
  -- the keys
  | copy
  | paste
  | delete (backspace : Bool)
  | undo
  | redo
  -- `TAS_IMPORT_SILENT`
  | importSilent (code : List Char)

namespace Session

def updateStickManual (s : Session A) (side : Side) (ax : Axis) (value : List Char) : Option (Session A) :=
  let val := if value = [] ∨ value = ['-'] then N.ofInt 0 else N.parseInt value
  let clampedVal := A.max (N.ofInt (-32768)) (A.min (N.ofInt 32767) val)
  s.setSticks side fun stick =>
    match ax with
    | .x => { stick with x := clampedVal }
    | .y => { stick with y := clampedVal }

def updateStickFromMouse (s : Session A) (side : Side) (fx fy : N.Number) : Option (Session A) :=
  s.setSticks side fun _ => ⟨fx, fy⟩

def handleRowMouseDown (s : Session A) (index : Nat) (ctrlKey : Bool) : Session A :=
  if ctrlKey then { s with isSelectionDrag := true }.select index
  else if index ∈ s.selectedIndices then s
  else { s with selectedIndices := [index] }

def handleDragOver (s : Session A) (index : Nat) (position : TargetPosition) : Session A :=
  if index ∈ s.draggedIndices then s
  else { s with dragTargetIndex := some index, dragTargetPosition := position }

/-- `none` is an `undefined` among the frames. -/
def handleDrop (s : Session A) : Option (Session A) :=
  match s.dragTargetIndex with
  | none => some s
  | some target =>
    if target ∈ s.draggedIndices then some s
    else do
      let (frames, selected) ← dropRows s.draggedIndices target s.dragTargetPosition s.frames
      return { s.saveAndSet frames (selected.map Int.toNat) with dragTargetIndex := none }

def addLoop (s : Session A) : Session A :=
  s.saveAndSet (splice (s.insertIndex + 1 : Nat) 0 [.loop_end]
    (splice s.insertIndex 0 [.loop_start ['i'] (N.ofInt 10)] s.frames)) []

/-- Rows of other kinds are left before anything is saved. -/
def updateDuration (s : Session A) (index : Nat) (val : Int) : Option (Session A) := do
  let frame ← s.frames[index]?
  if frame.isInput then s.updateRow index fun frame => some (frame.updateDuration A val) else some s

def copy (s : Session A) : Option (Session A) :=
  if s.selectedIndices = [] then some s
  else do
    let rowsToCopy ← (s.selectedIndices.insertionSort (· ≤ ·)).mapM fun idx : Nat => s.frames[idx]?
    return { s with internalClipboard := some (Snapshot.of A rowsToCopy) }

def paste (s : Session A) : Session A :=
  match s.internalClipboard with
  | none => s
  | some newRows =>
    s.saveAndSet (splice s.insertIndex 0 newRows.frames s.frames) (List.range' s.insertIndex newRows.frames.length)

def delete (s : Session A) (backspace : Bool) : Session A :=
  if backspace ∧ s.selectedIndices = [] then s
  else
    s.saveAndSet ((s.selectedIndices.insertionSort (· ≥ ·)).foldl (fun frames idx => splice idx 1 [] frames) s.frames) []

def confirmImport (s : Session A) (text : List Char) : Session A :=
  if trim text = [] then s else s.saveAndSet (parseScriptToFrames text) []

def importSilent (s : Session A) (code : List Char) : Session A :=
  { s with frames := parseScriptToFrames code, selectedIndices := [] }

/-- `none` where the row of a control is missing. -/
def step (s : Session A) : Event N → Option (Session A)
  | .handleRowMouseDown index ctrlKey => some (s.handleRowMouseDown index ctrlKey)
  | .handleRowMouseEnter index ctrlKey => some (if s.isSelectionDrag ∧ ctrlKey then s.select index else s)
  | .mouseup => some { s with isSelectionDrag := false, isDragging := fun _ => false }
  | .handleDragStart index => some { s with draggedIndices := Editor.handleDragStart s.selectedIndices index }
  | .handleDragOver index position => some (s.handleDragOver index position)
  | .handleDrop => s.handleDrop
  | .addRow => some (s.insertAfterSelection [newRow])
  | .addGyroSet => some (s.insertAfterSelection [.gyro_set "NORTH".toList (N.ofInt 0) (N.ofInt 0) (N.ofInt 0)])
  | .addGyroClear => some (s.insertAfterSelection [.gyro_clear])
  | .addPosRot =>
    some (s.insertAfterSelection [.pos_rot (N.ofInt 0) (N.ofInt 0) (N.ofInt 0) (List.replicate 9 (N.ofInt 0))])
  | .addExecFile => some (s.insertAfterSelection [.exec_file "script_name.as".toList])
  | .addComment text => some (s.insertAfterSelection [.comment text])
  | .addLoop => some s.addLoop
  | .applyPreset code => some (s.insertAfterSelection (parseScriptToFrames code))
  | .compactTableUI => some (s.saveAndSet (getOptimizedFrames s.frames) [])
  | .confirmImport text => some (s.confirmImport text)
  | .updateProp index prop value => s.updateRow index fun frame => frame.updateProp prop value
  | .updatePosString index value => s.updateRow index fun frame => frame.updatePosString value
  | .updateRotString index value => s.updateRow index fun frame => frame.updateRotString value
  | .updateDuration index val => s.updateDuration index val
  | .toggleButton index btn => s.updateRow index fun frame => frame.toggleButton btn
  | .updateStickManual side ax value => s.updateStickManual side ax value
  | .stickMouseDown side fx fy =>
    { s with isDragging := Function.update s.isDragging side true }.saveHistory.updateStickFromMouse side fx fy
  | .stickMouseMove side fx fy => if s.isDragging side then s.updateStickFromMouse side fx fy else some s
  | .stickMouseLeave side => some { s with isDragging := Function.update s.isDragging side false }
  | .copy => s.copy
  | .paste => some s.paste
  | .delete backspace => some (s.delete backspace)
  | .undo => some s.undo
  | .redo => some s.redo
  | .importSilent code => some (s.importSilent code)

def run (s : Session A) (events : List (Event N)) : Option (Session A) := events.foldlM step s

end Session

end LotusKit.Editor

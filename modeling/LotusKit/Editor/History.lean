import LotusKit.Editor.Session

/-! Undo goes back exactly where every change is saved and no number is lost in a snapshot. -/

namespace LotusKit.Editor
open LotusKit.Lib

variable {N : Numbers} {A : Arithmetic N}

/-- What an event does to the frames and the snapshots. -/
inductive Kind where
  | quiet
  | saved
  | unsaved
  | undone
  deriving DecidableEq

namespace Session

/-- An input frame is selected. -/
def hasInput (s : Session A) : Bool := s.selectedIndices.any fun idx => (s.frames[idx]?).any Frame.isInput

def kind (s : Session A) : Event N → Kind
  | .handleRowMouseDown _ _ | .handleRowMouseEnter _ _ | .mouseup | .handleDragStart _ | .handleDragOver _ _ => .quiet
  | .stickMouseLeave _ | .copy => .quiet
  | .handleDrop => if s.dragTargetIndex.any (· ∉ s.draggedIndices) then .saved else .quiet
  | .confirmImport text => if trim text = [] then .quiet else .saved
  | .updateDuration index _ => if (s.frames[index]?).any Frame.isInput then .saved else .quiet
  | .paste => if s.internalClipboard.isSome then .saved else .quiet
  | .delete backspace => if backspace ∧ s.selectedIndices = [] then .quiet else .saved
  | .updateStickManual _ _ _ => if s.hasInput then .unsaved else .quiet
  | .stickMouseMove side _ _ => if s.isDragging side ∧ s.hasInput then .unsaved else .quiet
  | .importSilent _ => .unsaved
  | .undo | .redo => .undone
  | _ => .saved

def trail (s : Session A) : Trail (List (Frame N)) :=
  ⟨s.history.map Snapshot.frames, s.frames, s.redoStack.map Snapshot.frames⟩

variable {s t : Session A}

theorem trail_saved (stable : Stable A s.frames) (history : t.history = s.saveHistory.history)
    (redoStack : t.redoStack = []) : t.trail = s.trail.change MAX_HISTORY t.frames := by
  rw [trail, history, redoStack, saveHistory, Trail.map_remember, Snapshot.frames_of stable]
  rfl

theorem trail_undo (stable : Stable A s.frames) : s.undo.trail = s.trail.undo := by
  unfold undo trail Trail.undo
  obtain ⟨frames, selectedIndices, history⟩ := s
  cases history with
  | nil => rfl
  | cons state history =>
    simp only [restoreState, List.map_cons, Snapshot.frames_of stable]

theorem trail_redo (stable : Stable A s.frames) : s.redo.trail = s.trail.redo := by
  unfold redo trail Trail.redo
  obtain ⟨frames, selectedIndices, history, redoStack⟩ := s
  cases redoStack with
  | nil => rfl
  | cons state redoStack =>
    simp only [restoreState, List.map_cons, Snapshot.frames_of stable]

/-- A snapshot is stable, so that undoing leaves a stable list. -/
theorem stable_undo (stable : Stable A s.frames) : Stable A s.undo.frames := by
  unfold undo
  cases s.history with
  | nil => exact stable
  | cons state history => exact state.stable

theorem trail_iterate_undo (stable : Stable A s.frames) (k : Nat) :
    (undo^[k] s).trail = Trail.undo^[k] s.trail ∧ Stable A (undo^[k] s).frames := by
  induction k with
  | zero => exact ⟨rfl, stable⟩
  | succ k ih =>
    obtain ⟨same, stable'⟩ := ih
    rw [Function.iterate_succ_apply', Function.iterate_succ_apply', ← same]
    exact ⟨trail_undo stable', stable_undo stable'⟩

section Steps
variable {side : Side} {change : Stick N → Stick N}

/-- Setting sticks leaves all but the frames. -/
theorem setSticks_eq (set : s.setSticks side change = some t) : ∃ frames, t = { s with frames := frames } := by
  obtain ⟨frames, -, same⟩ := Option.bind_eq_some_iff.mp set
  exact ⟨frames, (Option.some.inj same).symm⟩

theorem setStick_of_not_isInput {frame : Frame N} (other : frame.isInput = false) : frame.setStick side change = frame := by
  cases frame with
  | input duration buttons lstick rstick => cases other
  | _ => rfl

/-- Without an input frame, nothing is set. -/
theorem setSticks_of_not_hasInput (none_ : s.hasInput = false) (set : s.setSticks side change = some t) : t = s := by
  obtain ⟨frames, fold, same⟩ := Option.bind_eq_some_iff.mp set
  have unchanged : ∀ indices : List Nat, (indices.any fun idx => (s.frames[idx]?).any Frame.isInput) = false →
      indices.foldlM (fun (frames : List (Frame N)) (idx : Nat) => do
        let frame ← frames[idx]?
        return frames.set idx (frame.setStick side change)) s.frames = some frames → frames = s.frames := by
    intro indices
    induction indices with
    | nil => exact fun _ done => (Option.some.inj done).symm
    | cons idx indices ih =>
      intro quiet done
      rw [List.any_cons, Bool.or_eq_false_iff] at quiet
      obtain ⟨next, first, done⟩ := Option.bind_eq_some_iff.mp done
      obtain ⟨frame, there, changed⟩ := Option.bind_eq_some_iff.mp first
      have other : frame.isInput = false := by
        rw [there] at quiet
        exact quiet.1
      have still : next = s.frames := by
        rw [← Option.some.inj changed, setStick_of_not_isInput other]
        obtain ⟨inside, rfl⟩ := List.getElem?_eq_some_iff.mp there
        exact List.set_getElem_self inside
      rw [still] at done
      exact ih quiet.2 done
  have frames_ := unchanged s.selectedIndices none_ fold
  rw [← Option.some.inj same, frames_]

theorem updateRow_saved {index : Nat} {change : Frame N → Option (Frame N)} (done : s.updateRow index change = some t) :
    t.history = s.saveHistory.history ∧ t.redoStack = [] := by
  obtain ⟨_, -, done⟩ := Option.bind_eq_some_iff.mp done
  obtain ⟨_, -, same⟩ := Option.bind_eq_some_iff.mp done
  rw [← Option.some.inj same]
  exact ⟨rfl, rfl⟩

variable {ev : Event N}

theorem trail_select (index : Nat) : (s.select index).trail = s.trail := by
  unfold select
  split
  · rfl
  · rfl

theorem step_quiet (quiet : s.kind ev = .quiet) (done : s.step ev = some t) : t.trail = s.trail := by
  cases ev with
  | handleRowMouseDown index ctrlKey =>
    rw [← Option.some.inj done, handleRowMouseDown]
    split
    · exact trail_select index
    · split
      · rfl
      · rfl
  | handleRowMouseEnter index ctrlKey =>
    rw [← Option.some.inj done]
    split
    · exact trail_select index
    · rfl
  | mouseup => rw [← Option.some.inj done]; rfl
  | handleDragStart index => rw [← Option.some.inj done]; rfl
  | handleDragOver index position =>
    rw [← Option.some.inj done, handleDragOver]
    split
    · rfl
    · rfl
  | handleDrop =>
    simp only [step, handleDrop] at done
    simp only [kind] at quiet
    cases target : s.dragTargetIndex with
    | none =>
      rw [target] at done
      rw [← Option.some.inj done]
    | some index =>
      rw [target] at done quiet
      by_cases own : index ∈ s.draggedIndices
      · simp only [if_pos own] at done
        rw [← Option.some.inj done]
      · simp [own] at quiet
  | confirmImport text =>
    simp only [kind] at quiet
    split at quiet
    case isTrue blank => rw [← Option.some.inj done, confirmImport, if_pos blank]
    case isFalse => cases quiet
  | updateDuration index val =>
    simp only [kind] at quiet
    obtain ⟨frame, there, done⟩ := Option.bind_eq_some_iff.mp done
    rw [there, Option.any_some] at quiet
    split at quiet
    case isTrue => cases quiet
    case isFalse other =>
      rw [if_neg other] at done
      rw [← Option.some.inj done]
  | updateStickManual side ax value =>
    simp only [kind] at quiet
    split at quiet
    case isTrue => cases quiet
    case isFalse none_ => rw [setSticks_of_not_hasInput (Bool.not_eq_true _ ▸ none_) done]
  | stickMouseMove side fx fy =>
    simp only [kind] at quiet
    simp only [step] at done
    split at done
    case isTrue dragging =>
      split at quiet
      case isTrue => cases quiet
      case isFalse none_ =>
        have without : s.hasInput = false := by
          rw [← Bool.not_eq_true]
          exact fun some_ => none_ ⟨dragging, some_⟩
        rw [setSticks_of_not_hasInput without done]
    case isFalse => rw [← Option.some.inj done]
  | stickMouseLeave side => rw [← Option.some.inj done]; rfl
  | copy =>
    simp only [step, copy] at done
    split at done
    · rw [← Option.some.inj done]
    · obtain ⟨_, -, same⟩ := Option.bind_eq_some_iff.mp done
      rw [← Option.some.inj same]
      rfl
  | paste =>
    simp only [kind] at quiet
    rw [← Option.some.inj done, paste]
    cases board : s.internalClipboard with
    | none => rfl
    | some newRows =>
      rw [board, Option.isSome_some, if_pos rfl] at quiet
      cases quiet
  | delete backspace =>
    simp only [kind] at quiet
    split at quiet
    case isTrue idle => rw [← Option.some.inj done, delete, if_pos idle]
    case isFalse => cases quiet
  | _ => cases quiet

/-- A saved change pushes the frames as they were, and forgets what was taken back. -/
theorem step_saved (saved : s.kind ev = .saved) (done : s.step ev = some t) :
    t.history = s.saveHistory.history ∧ t.redoStack = [] := by
  have own {frames : List (Frame N)} {selected : List Nat} (same : some (s.saveAndSet frames selected) = some t) :
      t.history = s.saveHistory.history ∧ t.redoStack = [] := by
    rw [← Option.some.inj same]
    exact ⟨rfl, rfl⟩
  cases ev with
  | addRow | addGyroSet | addGyroClear | addPosRot | addExecFile | addComment | addLoop | applyPreset | compactTableUI =>
    exact own done
  | updateProp | updatePosString | updateRotString | toggleButton => exact updateRow_saved done
  | handleDrop =>
    simp only [step, handleDrop] at done
    simp only [kind] at saved
    cases target : s.dragTargetIndex with
    | none =>
      rw [target] at saved
      cases saved
    | some index =>
      rw [target] at done saved
      by_cases inside : index ∈ s.draggedIndices
      · simp [inside] at saved
      · simp only [if_neg inside] at done
        obtain ⟨_, -, same⟩ := Option.bind_eq_some_iff.mp done
        rw [← Option.some.inj same]
        exact ⟨rfl, rfl⟩
  | confirmImport text =>
    simp only [kind] at saved
    split at saved
    case isTrue => cases saved
    case isFalse some_ =>
      rw [step, confirmImport, if_neg some_] at done
      exact own done
  | updateDuration index val =>
    simp only [kind] at saved
    obtain ⟨frame, there, done⟩ := Option.bind_eq_some_iff.mp done
    rw [there, Option.any_some] at saved
    split at saved
    case isTrue input =>
      rw [if_pos input] at done
      exact updateRow_saved done
    case isFalse => cases saved
  | updateStickManual side ax value =>
    simp only [kind] at saved
    split at saved
    · cases saved
    · cases saved
  | stickMouseDown side fx fy =>
    obtain ⟨frames, rfl⟩ := setSticks_eq done
    exact ⟨rfl, rfl⟩
  | stickMouseMove side fx fy =>
    simp only [kind] at saved
    split at saved
    · cases saved
    · cases saved
  | paste =>
    simp only [kind] at saved
    cases board : s.internalClipboard with
    | none =>
      rw [board, Option.isSome_none, if_neg Bool.false_ne_true] at saved
      cases saved
    | some newRows =>
      rw [step, paste, board] at done
      exact own done
  | delete backspace =>
    simp only [kind] at saved
    split at saved
    case isTrue => cases saved
    case isFalse some_ =>
      rw [step, delete, if_neg some_] at done
      exact own done
  | _ => cases saved

/-- What is not saved leaves the snapshots alone. -/
theorem step_unsaved (unsaved : s.kind ev = .unsaved) (done : s.step ev = some t) :
    t.history = s.history ∧ t.redoStack = s.redoStack := by
  cases ev with
  | updateStickManual side ax value =>
    obtain ⟨frames, rfl⟩ := setSticks_eq done
    exact ⟨rfl, rfl⟩
  | stickMouseMove side fx fy =>
    simp only [step] at done
    split at done
    · obtain ⟨frames, rfl⟩ := setSticks_eq done
      exact ⟨rfl, rfl⟩
    · rw [← Option.some.inj done]
      exact ⟨rfl, rfl⟩
  | importSilent code =>
    rw [← Option.some.inj done]
    exact ⟨rfl, rfl⟩
  | handleDrop | confirmImport | updateDuration | paste | delete =>
    simp only [kind] at unsaved
    split at unsaved
    · cases unsaved
    · cases unsaved
  | _ => cases unsaved

end Steps

/-- The mouse goes on moving the stick that it took. -/
def continues : Option (Event N) → Event N → Bool
  | some (.stickMouseDown side _ _), .stickMouseMove side' _ _ => side = side'
  | some (.stickMouseMove side _ _), .stickMouseMove side' _ _ => side = side'
  | _, _ => false

/-- Use of the controls, each step with a condition: the lists before the mutations, the newest
first, and the last event that did something. Moving a stick by the mouse is one mutation. -/
inductive Run (Cond : Session A → Option (Event N) → Event N → Prop) (s : Session A) :
    List (List (Frame N)) → Option (Event N) → Session A → Prop
  | start : Run Cond s [] none s
  | quiet {befores last t ev u} : Run Cond s befores last t → t.kind ev = .quiet → Cond t last ev →
      t.step ev = some u → Run Cond s befores last u
  | continued {befores last t ev u} : Run Cond s befores last t → t.kind ev = .unsaved → continues last ev = true →
      Cond t last ev → t.step ev = some u → Run Cond s befores (some ev) u
  | mutation {befores last t ev u} : Run Cond s befores last t →
      t.kind ev = .saved ∨ t.kind ev = .unsaved ∧ continues last ev = false →
      Cond t last ev → t.step ev = some u → Run Cond s (t.frames :: befores) (some ev) u

/-- No number of the frames is lost in a snapshot, and what is not saved goes on with something
that is. -/
def Covered (t : Session A) (last : Option (Event N)) (ev : Event N) : Prop :=
  Stable A t.frames ∧ (t.kind ev = .unsaved → continues last ev = true)

/-- The snapshots are the lists before the mutations, as far as the limit. -/
theorem past_of_run {befores : List (List (Frame N))} {last : Option (Event N)} (run : Run Covered s befores last t) :
    t.trail.past.take MAX_HISTORY = (befores ++ s.trail.past).take MAX_HISTORY := by
  induction run with
  | start => rfl
  | quiet _ quiet _ done ih => rw [step_quiet quiet done, ih]
  | continued _ unsaved _ _ done ih =>
    rw [trail, (step_unsaved unsaved done).1]
    exact ih
  | @mutation befores last t ev u _ kind covered done ih =>
    rcases kind with saved | ⟨unsaved, alone⟩
    · obtain ⟨history, redoStack⟩ := step_saved saved done
      rw [trail_saved covered.1 history redoStack]
      exact Trail.take_remember_of_take t.frames ih
    · rw [covered.2 unsaved] at alone
      cases alone

theorem undo_redo_exact {befores : List (List (Frame N))} {last : Option (Event N)} (run : Run Covered s befores last t)
    (stable : Stable A t.frames) : ∀ k ≤ MAX_HISTORY, k ≤ befores.length →
      (t.frames :: befores)[k]? = some (undo^[k] t).frames ∧
      (k < MAX_HISTORY → k < befores.length → (undo^[k] t).undo.redo.frames = (undo^[k] t).frames) := by
  intro k within made
  have past := past_of_run run
  obtain ⟨same, stable'⟩ := trail_iterate_undo stable k
  have exact_ := Trail.iterate_undo_of_take past within made
  rw [← same] at exact_
  refine ⟨exact_, fun more left => ?_⟩
  have some_ : (undo^[k] t).trail.past ≠ [] := by
    have longer : k + 1 ≤ t.trail.past.length := Trail.le_length_past past more left
    rw [same, Trail.past_iterate_undo, ne_eq, List.drop_eq_nil_iff]
    omega
  have whole : (undo^[k] t).undo.redo.trail = (undo^[k] t).trail := by
    rw [trail_redo (stable_undo stable'), trail_undo stable', Trail.redo_undo some_]
  exact congrArg Trail.present whole

section Sample

/-- Numbers without rounding; `Math.max` and `Math.min` as they are for a number in between. -/
def plainArithmetic : Arithmetic decimals where
  null := decimals.nan
  max _ x := x
  min _ x := x

/-- The editor when it is opened. -/
def opened : Session plainArithmetic where
  frames := []
  selectedIndices := []
  history := []
  redoStack := []
  internalClipboard := none
  draggedIndices := []
  dragTargetIndex := none
  dragTargetPosition := .unset
  isSelectionDrag := false
  isDragging _ := false

def withRow : Session plainArithmetic := opened.insertAfterSelection [newRow]

def rowSelected : Session plainArithmetic := withRow.handleRowMouseDown 0 false

/-- A row whose left stick is typed: undo does not go back to the row, but removes it. -/
theorem typed_stick_lost : ∃ t last, Run (fun _ _ _ => True) opened [[newRow], []] last t ∧
    t.undo.frames = [] ∧ t.undo.frames ≠ [newRow] := by
  have first : Run (fun _ _ _ => True) opened [[]] (some .addRow) withRow := .mutation .start (.inl rfl) trivial rfl
  have chosen : withRow.step (.handleRowMouseDown 0 false) = some rowSelected := rfl
  have second : Run (fun _ _ _ => True) opened [[]] (some .addRow) rowSelected := .quiet first rfl trivial chosen
  have done : (rowSelected.step (.updateStickManual .lstick .x ['5'])).isSome := by decide +kernel
  obtain ⟨t, done⟩ := Option.isSome_iff_exists.mp done
  refine ⟨t, _, .mutation second (.inr ⟨by decide +kernel, rfl⟩) trivial done, ?_⟩
  obtain ⟨frames, rfl⟩ := setSticks_eq done
  exact ⟨rfl, (List.cons_ne_nil _ _).symm⟩

theorem kept_ofInt (n : Int) : plainArithmetic.Kept (decimals.ofInt n) := by
  have finite : Shortest.ofDecimal (n < 0) n.natAbs 0 = .zero ∨
      ∃ negative s e, Shortest.ofDecimal (n < 0) n.natAbs 0 = .finite negative s e := by
    unfold Shortest.ofDecimal
    split
    · exact .inl rfl
    · exact .inr ⟨_, _, _, rfl⟩
  exact .inl finite

/-- A new row whose left stick was moved. -/
def moved (x y : Int) : Frame decimals :=
  .input (decimals.ofInt 1) [] ⟨decimals.ofInt x, decimals.ofInt y⟩ ⟨decimals.ofInt 0, decimals.ofInt 0⟩

def go : Frame decimals := .comment "go".toList

theorem stable_moved (x y : Int) : Stable plainArithmetic [moved x y, go] := by
  intro frame inside n number
  rcases List.mem_pair.mp inside with rfl | rfl
  · simp only [moved, Frame.numbers, List.mem_cons, List.not_mem_nil, or_false] at number
    rcases number with rfl | rfl | rfl | rfl | rfl
    all_goals exact kept_ofInt _
  · exact absurd number List.not_mem_nil

/-- The row is pressed at a place on its stick, and the mouse is moved and let go. -/
def withComment : Session plainArithmetic := withRow.insertAfterSelection [go]

def chosen : Session plainArithmetic := withComment.handleRowMouseDown 0 false

def pressed : Session plainArithmetic :=
  { { chosen with isDragging := Function.update chosen.isDragging .lstick true }.saveHistory with frames := [moved 3 4, go] }

def dragged : Session plainArithmetic := { pressed with frames := [moved 5 6, go] }

def released : Session plainArithmetic := { dragged with isSelectionDrag := false, isDragging := fun _ => false }

theorem run_released : Run Covered opened [[moved 0 0, go], [newRow], []]
    (some (.stickMouseMove .lstick (decimals.ofInt 5) (decimals.ofInt 6))) released := by
  have stable (x y : Int) := stable_moved x y
  have empty : Stable plainArithmetic opened.frames := fun _ nothing => absurd nothing List.not_mem_nil
  have single : Stable plainArithmetic [newRow] := fun frame inside =>
    stable 0 0 frame (List.mem_cons.mpr (.inl (List.mem_singleton.mp inside)))
  have first : Run Covered opened [[]] (some .addRow) withRow :=
    .mutation .start (.inl rfl) ⟨empty, fun unsaved => by cases unsaved⟩ rfl
  have second : Run Covered opened [[newRow], []] (some (.addComment "go".toList)) withComment :=
    .mutation first (.inl rfl) ⟨single, fun unsaved => by cases unsaved⟩ rfl
  have selected : withComment.step (.handleRowMouseDown 0 false) = some chosen := rfl
  have third : Run Covered opened [[newRow], []] (some (.addComment "go".toList)) chosen :=
    .quiet second rfl ⟨stable 0 0, fun unsaved => by cases unsaved⟩ selected
  have fourth : Run Covered opened [[moved 0 0, go], [newRow], []]
      (some (.stickMouseDown .lstick (decimals.ofInt 3) (decimals.ofInt 4))) pressed :=
    .mutation third (.inl rfl) ⟨stable 0 0, fun unsaved => by cases unsaved⟩ rfl
  have fifth : Run Covered opened [[moved 0 0, go], [newRow], []]
      (some (.stickMouseMove .lstick (decimals.ofInt 5) (decimals.ofInt 6))) dragged :=
    .continued fourth rfl rfl ⟨stable 3 4, fun _ => rfl⟩ rfl
  have last : dragged.step .mouseup = some released := rfl
  exact .quiet fifth rfl ⟨stable 5 6, fun unsaved => by cases unsaved⟩ last

/-- A row and a comment are added, and a stick is dragged. Three undos go back step by step, and redo
forward again. -/
theorem dragged_stick_undone : released.frames = [moved 5 6, go] ∧ released.undo.frames = [moved 0 0, go] ∧
    (undo^[2] released).frames = [newRow] ∧ (undo^[3] released).frames = [] ∧
      (undo^[2] released).undo.redo.frames = [newRow] ∧ released.undo.redo.frames = [moved 5 6, go] := by
  have exact_ := undo_redo_exact run_released (stable_moved 5 6)
  have once := (exact_ 1 (by decide) (by decide)).1
  have twice := exact_ 2 (by decide) (by decide)
  have all := (exact_ 3 (by decide) (by decide)).1
  have back := (exact_ 0 (by decide) (by decide)).2 (by decide) (by decide)
  have second : (undo^[2] released).frames = [newRow] := (Option.some.inj twice.1).symm
  exact ⟨rfl, (Option.some.inj once).symm, second, (Option.some.inj all).symm,
    (twice.2 (by decide) (by decide)).trans second, back⟩

end Sample

end Session

end LotusKit.Editor

import LotusKit.Editor.Optimized
import LotusKit.Lib.Heap
import Mathlib.Data.List.Forall2

/-! The optimizer among the objects of the editor: frames, their sets and sticks, and the arrays
that refer to them. -/

namespace LotusKit.Editor.Objects
open LotusKit.Lib

/-- A `Set` of buttons, in the order of insertion. -/
abbrev Buttons := { items : List (List Char) // items.Nodup }

/-- A frame that is no input. -/
abbrev Other (N : Numbers) := { frame : Frame N // frame.isInput = false }

/-- An input frame refers to its buttons and sticks. -/
structure Input (N : Numbers) where
  duration : N.Number
  buttons : Nat
  lstick : Nat
  rstick : Nat

inductive Object (N : Numbers) where
  | array (elements : List Nat)
  | set (items : Buttons)
  | stick (value : Stick N)
  | input (frame : Input N)
  | other (frame : Other N)

variable {N : Numbers}

section Code

def readArray (h : Heap (Object N)) (a : Nat) : Option (List Nat) :=
  match h.cells a with
  | some (.array elements) => some elements
  | _ => none

def readSet (h : Heap (Object N)) (a : Nat) : Option Buttons :=
  match h.cells a with
  | some (.set items) => some items
  | _ => none

def readStick (h : Heap (Object N)) (a : Nat) : Option (Stick N) :=
  match h.cells a with
  | some (.stick value) => some value
  | _ => none

def readInput (h : Heap (Object N)) (a : Nat) : Option (Input N) :=
  match h.cells a with
  | some (.input frame) => some frame
  | _ => none

/-- `array.push(frame)` -/
def push (h : Heap (Object N)) (array frame : Nat) : Option (Heap (Object N)) := do
  let elements ← readArray h array
  h.write array (.array (elements ++ [frame]))

/-- `if (current) optimized.push(current)` -/
def pushCurrent (h : Heap (Object N)) (optimized : Nat) : Option Nat → Option (Heap (Object N))
  | none => some h
  | some current => push h optimized current

/-- A new input frame with a set and sticks of its own. -/
def copyInput (h : Heap (Object N)) (next : Input N) : Option (Heap (Object N) × Nat) := do
  let buttons ← readSet h next.buttons
  let lstick ← readStick h next.lstick
  let rstick ← readStick h next.rstick
  let h₁ := h.alloc (.set buttons)
  let h₂ := h₁.alloc (.stick lstick)
  let h₃ := h₂.alloc (.stick rstick)
  some (h₃.alloc (.input ⟨next.duration, h.fresh, h₁.fresh, h₂.fresh⟩), h₃.fresh)

/-- `sticksMatch && buttonsMatch` -/
def matches_ (h : Heap (Object N)) (current next : Input N) : Option Bool := do
  let buttons ← readSet h current.buttons
  let lstick ← readStick h current.lstick
  let rstick ← readStick h current.rstick
  let buttons' ← readSet h next.buttons
  let lstick' ← readStick h next.lstick
  let rstick' ← readStick h next.rstick
  some (Current.matches_ ⟨current.duration, buttons.val, lstick, rstick⟩ buttons'.val lstick' rstick')

/-- `current.duration += duration` -/
def addDuration (h : Heap (Object N)) (current : Nat) (duration : N.Number) : Option (Heap (Object N)) := do
  let frame ← readInput h current
  h.write current (.input { frame with duration := N.add frame.duration duration })

/-- The body of the loop after the first input: merged into `current`, or a new `current`. -/
def visitInput (h : Heap (Object N)) (optimized current : Nat) (next : Input N) : Option (Heap (Object N) × Nat) := do
  let frame ← readInput h current
  let same ← matches_ h frame next
  if same then
    let h' ← addDuration h current next.duration
    some (h', current)
  else
    let h' ← push h optimized current
    copyInput h' next

/-- The body of the loop: `current` is the input frame that is still open. -/
def visit (h : Heap (Object N)) (optimized next : Nat) (current : Option Nat) :
    Option (Heap (Object N) × Option Nat) :=
  match h.cells next, current with
  | some (.other _), current => do
    let h₁ ← pushCurrent h optimized current
    let h₂ ← push h₁ optimized next
    some (h₂, none)
  | some (.input frame), none => (copyInput h frame).map fun (h', copy) => (h', some copy)
  | some (.input frame), some current => (visitInput h optimized current frame).map fun (h', open_) => (h', some open_)
  | _, _ => none

/-- The loop, which reads the length and the elements of the source again and again. -/
def visitFrom (sourceFrames optimized : Nat) :
    (fuel i : Nat) → Heap (Object N) → Option Nat → Option (Heap (Object N) × Option Nat)
  | 0, _, _, _ => none
  | fuel + 1, i, h, current => do
    let elements ← readArray h sourceFrames
    match elements[i]? with
    | none => some (h, current)
    | some next =>
      let (h', current') ← visit h optimized next current
      visitFrom sourceFrames optimized fuel (i + 1) h' current'

def getOptimizedFrames (h : Heap (Object N)) (sourceFrames : Nat) : Option (Heap (Object N) × Nat) := do
  let elements ← readArray h sourceFrames
  if elements = [] then some (h.alloc (.array []), h.fresh)
  else
    let optimized := h.fresh
    let (h', current) ← visitFrom sourceFrames optimized (elements.length + 1) 0 (h.alloc (.array [])) none
    let h'' ← pushCurrent h' optimized current
    some (h'', optimized)

end Code

section Reading
variable {h h' : Heap (Object N)} {a c : Nat} {frame : Frame N}

/-- What the reference `a` is to: a frame with its set and its sticks. -/
inductive Reads (h : Heap (Object N)) (a : Nat) : Frame N → Prop
  | input {frame : Input N} {buttons : Buttons} {lstick rstick : Stick N} (cell : h.cells a = some (.input frame))
      (set : h.cells frame.buttons = some (.set buttons)) (left : h.cells frame.lstick = some (.stick lstick))
      (right : h.cells frame.rstick = some (.stick rstick)) :
      Reads h a (.input frame.duration buttons.val lstick rstick)
  | other {frame : Other N} (cell : h.cells a = some (.other frame)) : Reads h a frame.val

/-- An array of frames. -/
def ReadsArray (h : Heap (Object N)) (a : Nat) (frames : List (Frame N)) : Prop :=
  ∃ elements, h.cells a = some (.array elements) ∧ List.Forall₂ (Reads h) elements frames

/-- An array or an input, which is no part of another frame. -/
def Object.isWhole : Object N → Bool
  | array _ | input _ => true
  | _ => false

theorem part_kept {b : Nat} {o : Object N} (whole : ∀ o ∈ h.cells c, o.isWhole = true)
    (kept : ∀ b ∈ h.live, b ≠ c → h'.cells b = h.cells b) (cell : h.cells b = some o) (part : o.isWhole = false) :
    h'.cells b = some o := by
  rw [kept b (Heap.mem_live_of_cells cell), cell]
  rintro rfl
  rw [whole o cell] at part
  cases part

/-- A frame reads as before when all that changes is another whole object. -/
theorem Reads.keep (reads : Reads h a frame) (apart : a ≠ c) (whole : ∀ o ∈ h.cells c, o.isWhole = true)
    (kept : ∀ b ∈ h.live, b ≠ c → h'.cells b = h.cells b) : Reads h' a frame := by
  have part : ∀ {b o}, h.cells b = some o → o.isWhole = false → h'.cells b = some o := part_kept whole kept
  cases reads with
  | input cell set left right =>
    exact .input ((kept a (Heap.mem_live_of_cells cell) apart).trans cell) (part set rfl) (part left rfl) (part right rfl)
  | other cell => exact .other ((kept a (Heap.mem_live_of_cells cell) apart).trans cell)

theorem Reads.mem_live (reads : Reads h a frame) : a ∈ h.live := by
  cases reads with
  | input cell set left right => exact Heap.mem_live_of_cells cell
  | other cell => exact Heap.mem_live_of_cells cell

/-- An array is no frame. -/
theorem Reads.ne_array {elements : List Nat} (reads : Reads h a frame) (array : h.cells c = some (.array elements)) :
    a ≠ c := by
  rintro rfl
  cases reads with
  | input cell set left right => cases array.symm.trans cell
  | other cell => cases array.symm.trans cell

theorem Reads.extend (reads : Reads h a frame) (kept : ∀ b ∈ h.live, h'.cells b = h.cells b) : Reads h' a frame := by
  apply reads.keep (Nat.ne_of_lt (Heap.lt_fresh reads.mem_live))
  · intro o some_
    rw [h.unused h.fresh (Nat.le_refl _)] at some_
    cases some_
  · intro b there _
    exact kept b there

theorem Reads.isSet (reads : Reads h a frame) : frame.IsSet := by
  cases reads with
  | @input input buttons lstick rstick cell set left right => exact buttons.property
  | @other other cell =>
    obtain ⟨frame, plain⟩ := other
    cases frame with
    | input duration buttons lstick rstick => cases plain
    | _ => trivial

theorem ReadsArray.isSet {frames : List (Frame N)} (reads : ReadsArray h a frames) : ∀ f ∈ frames, f.IsSet := by
  obtain ⟨elements, -, each⟩ := reads
  induction each with
  | nil => nofun
  | cons first _ ih => exact List.forall_mem_cons.mpr ⟨first.isSet, ih⟩

/-- The objects of an open input. -/
theorem Reads.current {current : Current N} (reads : Reads h a current.frame) :
    ∃ (frame : Input N) (buttons : Buttons), h.cells a = some (.input frame) ∧
      h.cells frame.buttons = some (.set buttons) ∧ h.cells frame.lstick = some (.stick current.lstick) ∧
      h.cells frame.rstick = some (.stick current.rstick) ∧
      current = ⟨frame.duration, buttons.val, current.lstick, current.rstick⟩ := by
  obtain ⟨duration, buttons, lstick, rstick⟩ := current
  generalize same : Current.frame ⟨duration, buttons, lstick, rstick⟩ = f at reads
  cases reads with
  | @input frame set lstick' rstick' cell set left right =>
    cases same
    exact ⟨frame, _, cell, set, left, right, rfl⟩
  | @other other cell =>
    have plain := other.property
    rw [← same] at plain
    cases plain

end Reading

section Steps
variable {h : Heap (Object N)} {optimized ref : Nat} {elements : List Nat} {next : Input N} {duration : N.Number}
  {buttons : Buttons} {lstick rstick : Stick N}

theorem push_eq (array : h.cells optimized = some (.array elements)) : ∃ h', push h optimized ref = some h' ∧
    h'.cells optimized = some (.array (elements ++ [ref])) ∧ ∀ b, b ≠ optimized → h'.cells b = h.cells b := by
  obtain ⟨h', written, own, others, -, -⟩ := @Heap.write_eq _ h optimized (.array (elements ++ [ref]))
    (Heap.mem_live_of_cells array)
  refine ⟨h', ?_, own, others⟩
  rw [push, readArray, array]
  exact written

theorem addDuration_eq (there : h.cells ref = some (.input next)) : ∃ h', addDuration h ref duration = some h' ∧
    h'.cells ref = some (.input { next with duration := N.add next.duration duration }) ∧
    ∀ b, b ≠ ref → h'.cells b = h.cells b := by
  obtain ⟨h', written, own, others, -, -⟩ := @Heap.write_eq _ h ref
    (.input { next with duration := N.add next.duration duration }) (Heap.mem_live_of_cells there)
  refine ⟨h', ?_, own, others⟩
  rw [addDuration, Objects.readInput, there]
  exact written

theorem copyInput_eq (set : h.cells next.buttons = some (.set buttons)) (left : h.cells next.lstick = some (.stick lstick))
    (right : h.cells next.rstick = some (.stick rstick)) : ∃ h' copy, copyInput h next = some (h', copy) ∧
    copy ∉ h.live ∧ (∀ b ∈ h.live, h'.cells b = h.cells b) ∧
    Reads h' copy (.input next.duration buttons.val lstick rstick) := by
  let h₁ := h.alloc (.set buttons)
  let h₂ := h₁.alloc (.stick lstick)
  let h₃ := h₂.alloc (.stick rstick)
  have run : copyInput h next =
      some (h₃.alloc (.input ⟨next.duration, h.fresh, h₁.fresh, h₂.fresh⟩), h₃.fresh) := by
    rw [copyInput, readSet, set, readStick, left, readStick, right]
    rfl
  have live : ∀ {a}, a ∈ h.live → a ∈ h₃.live := by
    intro a there
    simp only [h₃, h₂, h₁, Heap.live_alloc]
    exact Set.mem_insert_of_mem _ (Set.mem_insert_of_mem _ (Set.mem_insert_of_mem _ there))
  refine ⟨_, _, run, fun there => Heap.fresh_not_mem_live (Nat.le_refl _) (live there), ?_, ?_⟩
  · intro b there
    obtain ⟨o, cell⟩ := Option.isSome_iff_exists.mp there
    rw [cell]
    exact Heap.cells_alloc_of_cells (Heap.cells_alloc_of_cells (Heap.cells_alloc_of_cells (Heap.cells_alloc_of_cells cell)))
  · have set' : h₁.cells h.fresh = some (.set buttons) := Heap.cells_alloc_self
    have left' : h₂.cells h₁.fresh = some (.stick lstick) := Heap.cells_alloc_self
    have right' : h₃.cells h₂.fresh = some (.stick rstick) := Heap.cells_alloc_self
    apply @Reads.input N _ _ ⟨next.duration, h.fresh, h₁.fresh, h₂.fresh⟩
    · exact Heap.cells_alloc_self
    · exact Heap.cells_alloc_of_cells (Heap.cells_alloc_of_cells (Heap.cells_alloc_of_cells set'))
    · exact Heap.cells_alloc_of_cells (Heap.cells_alloc_of_cells left')
    · exact Heap.cells_alloc_of_cells right'

end Steps

section Run
variable {h₀ h : Heap (Object N)} {optimized next : Nat} {current : Option Nat} {done : List (Frame N)}
  {cur : Option (Current N)} {frame : Frame N}

/-- While the loop runs: what was there is left as it was, `optimized` has the frames `done`, and
`current` is an object of its own. -/
structure Running (h₀ : Heap (Object N)) (optimized : Nat) (h : Heap (Object N)) (current : Option Nat)
    (done : List (Frame N)) (cur : Option (Current N)) : Prop where
  kept : ∀ a ∈ h₀.live, h.cells a = h₀.cells a
  fresh : optimized ∉ h₀.live
  pushed : ∃ elements, h.cells optimized = some (.array elements) ∧
    List.Forall₂ (fun a frame => Reads h a frame ∧ a ∉ current) elements done
  opened : Option.Rel (fun a (c : Current N) => Reads h a c.frame) current cur
  own : ∀ a ∈ current, a ∉ h₀.live

theorem Running.cell {b : Nat} {o : Object N} (running : Running h₀ optimized h current done cur)
    (there : h₀.cells b = some o) : h.cells b = some o :=
  (running.kept b (Heap.mem_live_of_cells there)).trans there

/-- A frame is pushed, and none is open any more. -/
theorem Running.push (running : Running h₀ optimized h current done cur) (reads : Reads h next frame) :
    ∃ h', Objects.push h optimized next = some h' ∧ Running h₀ optimized h' none (done ++ [frame]) none := by
  obtain ⟨elements, array, pushed⟩ := running.pushed
  obtain ⟨h', run, written, others⟩ := @push_eq _ h optimized next elements array
  have keep : ∀ {a f}, Reads h a f → Reads h' a f := by
    intro a f reads
    apply reads.keep (reads.ne_array array)
    · intro o cell
      cases array.symm.trans cell
      rfl
    · intro b _ apart
      exact others b apart
  have all : List.Forall₂ (fun a f => Reads h' a f ∧ a ∉ (none : Option Nat)) (elements ++ [next]) (done ++ [frame]) := by
    apply List.rel_append
    · exact pushed.imp fun a f reads => ⟨keep reads.1, nofun⟩
    · exact .cons ⟨keep reads, nofun⟩ .nil
  refine ⟨h', run, ?_, running.fresh, ⟨_, written, all⟩, .none, nofun⟩
  intro a there
  have apart : a ≠ optimized := by
    rintro rfl
    exact running.fresh there
  rw [others a apart, running.kept a there]

theorem Running.pushCurrent (running : Running h₀ optimized h current done cur) :
    ∃ h', Objects.pushCurrent h optimized current = some h' ∧
      Running h₀ optimized h' none (done ++ (cur.map Current.frame).toList) none := by
  have opened := running.opened
  cases opened with
  | none => exact ⟨h, rfl, (List.append_nil done).symm ▸ running⟩
  | some reads => exact running.push reads

/-- The next input is copied, and is open from now on. -/
theorem Running.copyInput {next : Input N} {buttons : Buttons} {lstick rstick : Stick N}
    (running : Running h₀ optimized h current done cur) (set : h.cells next.buttons = some (.set buttons))
    (left : h.cells next.lstick = some (.stick lstick)) (right : h.cells next.rstick = some (.stick rstick)) :
    ∃ h' copy, Objects.copyInput h next = some (h', copy) ∧
      Running h₀ optimized h' (some copy) done (some ⟨next.duration, buttons.val, lstick, rstick⟩) := by
  obtain ⟨h', copy, run, new, kept, reads⟩ := copyInput_eq set left right
  obtain ⟨elements, array, pushed⟩ := running.pushed
  have before : ∀ a ∈ h₀.live, a ∈ h.live := by
    intro a there
    obtain ⟨o, cell⟩ := Option.isSome_iff_exists.mp there
    exact Heap.mem_live_of_cells ((running.kept a there).trans cell)
  have old : List.Forall₂ (fun a f => Reads h' a f ∧ a ∉ some copy) elements done := by
    apply pushed.imp
    rintro a f ⟨reads, -⟩
    refine ⟨reads.extend kept, ?_⟩
    rintro ⟨⟩
    exact new reads.mem_live
  refine ⟨h', copy, run, ?_, running.fresh, ⟨elements, ?_, old⟩, .some reads, ?_⟩
  · intro a there
    rw [kept a (before a there), running.kept a there]
  · rw [kept optimized (Heap.mem_live_of_cells array), array]
  · rintro _ ⟨⟩ there
    exact new (before _ there)

/-- The open input is its own object, so that nothing else sees it last longer. -/
theorem Running.addDuration {a : Nat} {c : Current N} {duration : N.Number}
    (running : Running h₀ optimized h (some a) done (some c)) :
    ∃ h', Objects.addDuration h a duration = some h' ∧
      Running h₀ optimized h' (some a) done (some { c with duration := N.add c.duration duration }) := by
  obtain ⟨elements, array, pushed⟩ := running.pushed
  have reads : Reads h a c.frame := by
    cases running.opened with
    | some reads => exact reads
  obtain ⟨frame, buttons, cell, set, left, right, same⟩ := reads.current
  obtain ⟨h', run, written, others⟩ := @addDuration_eq _ h a frame duration cell
  have whole : ∀ o ∈ h.cells a, o.isWhole = true := by
    intro o there
    cases cell.symm.trans there
    rfl
  have part : ∀ {b o}, h.cells b = some o → o.isWhole = false → h'.cells b = some o :=
    part_kept whole fun b _ => others b
  have all : List.Forall₂ (fun b f => Reads h' b f ∧ b ∉ some a) elements done := by
    apply pushed.imp
    rintro b f ⟨reads, other⟩
    have apart : b ≠ a := by
      rintro rfl
      exact other rfl
    exact ⟨reads.keep apart whole fun d _ => others d, other⟩
  have longer : Reads h' a (Current.frame { c with duration := N.add c.duration duration }) := by
    rw [same]
    exact .input written (part set rfl) (part left rfl) (part right rfl)
  refine ⟨h', run, ?_, running.fresh, ⟨elements, ?_, all⟩, .some longer, running.own⟩
  · intro b there
    rw [others b, running.kept b there]
    rintro rfl
    exact running.own _ rfl there
  · rw [others optimized, array]
    rintro rfl
    cases array.symm.trans cell

/-- One more frame is read: what is pushed and what is open are as without objects. -/
theorem Running.visit (running : Running h₀ optimized h current done cur) (reads : Reads h₀ next frame) :
    ∃ h' current' pushed cur', Objects.visit h optimized next current = some (h', current') ∧
      Running h₀ optimized h' current' (done ++ pushed) cur' ∧
      ∀ frames, optimizeLoop (frame :: frames) cur = pushed ++ optimizeLoop frames cur' := by
  cases reads with
  | @other frame cell =>
    obtain ⟨h₁, first, running₁⟩ := running.pushCurrent
    obtain ⟨h₂, second, running₂⟩ := running₁.push (.other (running₁.cell cell))
    refine ⟨h₂, none, (cur.map Current.frame).toList ++ [frame.val], none, ?_, ?_, fun frames => ?_⟩
    · simp only [Objects.visit, running.cell cell, first, second, Option.bind_eq_bind, Option.bind_some]
    · rwa [← List.append_assoc]
    · rw [optimizeLoop_other frame.property, List.append_assoc, List.singleton_append]
  | @input frame buttons lstick rstick cell set left right =>
    have opened := running.opened
    cases opened with
    | none =>
      obtain ⟨h', copy, run, running'⟩ := running.copyInput (running.cell set) (running.cell left) (running.cell right)
      refine ⟨h', some copy, [], _, ?_, (List.append_nil done).symm ▸ running', fun frames => rfl⟩
      simp only [Objects.visit, running.cell cell, run, Option.map_some]
    | @some a c open_ =>
      obtain ⟨own, buttons', ownCell, ownSet, ownLeft, ownRight, same⟩ := open_.current
      have compared : Objects.matches_ h own frame = some (c.matches_ buttons.val lstick rstick) := by
        rw [Objects.matches_, readSet, ownSet, readStick, ownLeft, readStick, ownRight, readSet, running.cell set, readStick,
          running.cell left, readStick, running.cell right, same]
        rfl
      by_cases merged : c.matches_ buttons.val lstick rstick = true
      · obtain ⟨h', run, running'⟩ := @Running.addDuration _ _ _ _ _ _ _ frame.duration running
        refine ⟨h', some a, [], _, ?_, (List.append_nil done).symm ▸ running', fun frames => optimizeLoop_merge merged⟩
        simp only [Objects.visit, running.cell cell, visitInput, Objects.readInput, ownCell, compared, merged, run,
          Option.bind_eq_bind, Option.bind_some, if_true, Option.map_some]
      · rw [Bool.not_eq_true] at merged
        obtain ⟨h₁, first, running₁⟩ := running.push open_
        obtain ⟨h₂, copy, second, running₂⟩ := running₁.copyInput (running₁.cell set) (running₁.cell left) (running₁.cell right)
        refine ⟨h₂, some copy, [c.frame], _, ?_, running₂, fun frames => optimizeLoop_differ merged⟩
        simp only [Objects.visit, running.cell cell, visitInput, Objects.readInput, ownCell, compared, merged, first, second,
          Option.bind_eq_bind, Option.bind_some, Bool.false_eq_true, if_false, Option.map_some]

/-- All the frames that are left are read. -/
theorem Running.visitFrom {source fuel i : Nat} {elements : List Nat} {frames : List (Frame N)}
    (running : Running h₀ optimized h current done cur) (array : h₀.cells source = some (.array elements))
    (reads : List.Forall₂ (Reads h₀) (elements.drop i) frames) (enough : frames.length < fuel) :
    ∃ h' current' done' cur', Objects.visitFrom source optimized fuel i h current = some (h', current') ∧
      Running h₀ optimized h' current' done' cur' ∧
      done' ++ (cur'.map Current.frame).toList = done ++ optimizeLoop frames cur := by
  induction frames generalizing fuel i h current done cur with
  | nil =>
    obtain ⟨fuel, rfl⟩ := Nat.exists_eq_add_one_of_ne_zero (Nat.ne_of_gt enough)
    have last : elements[i]? = none := by
      rw [← List.head?_drop, List.forall₂_nil_right_iff.mp reads]
      rfl
    refine ⟨h, current, done, cur, ?_, running, rfl⟩
    simp only [Objects.visitFrom, readArray, running.cell array, last, Option.bind_eq_bind, Option.bind_some]
  | cons frame frames ih =>
    obtain ⟨fuel, rfl⟩ := Nat.exists_eq_add_one_of_ne_zero (Nat.ne_zero_of_lt enough)
    obtain ⟨next, rest, first, later, drop⟩ := List.forall₂_cons_right_iff.mp reads
    have here : elements[i]? = some next := by
      rw [← List.head?_drop, drop]
      rfl
    have behind : rest = elements.drop (i + 1) := by
      rw [← List.tail_drop, drop]
      rfl
    obtain ⟨h₁, current₁, pushed, cur₁, step, running₁, loop⟩ := running.visit first
    obtain ⟨h', current', done', cur', run, running', all⟩ := ih running₁ (behind ▸ later) (Nat.lt_of_succ_lt_succ enough)
    refine ⟨h', current', done', cur', ?_, running', ?_⟩
    · simp only [Objects.visitFrom, readArray, running.cell array, here, step, run, Option.bind_eq_bind, Option.bind_some]
    · rw [all, loop, List.append_assoc]

/-- The optimizer makes a new array of the optimized frames, and changes nothing that was there. -/
theorem exists_getOptimizedFrames {source : Nat} {frames : List (Frame N)} (reads : ReadsArray h source frames) :
    ∃ h' optimized, Objects.getOptimizedFrames h source = some (h', optimized) ∧
      ReadsArray h' optimized (Editor.getOptimizedFrames frames) ∧ optimized ∉ h.live ∧
      ∀ a ∈ h.live, h'.cells a = h.cells a := by
  obtain ⟨elements, array, each⟩ := reads
  have new : h.fresh ∉ h.live := Heap.fresh_not_mem_live (Nat.le_refl _)
  by_cases empty : elements = []
  · refine ⟨_, h.fresh, ?_, ⟨[], Heap.cells_alloc_self, ?_⟩, new, fun a there => Heap.cells_alloc_other there⟩
    · rw [Objects.getOptimizedFrames, readArray, array]
      exact if_pos empty
    · rw [empty, List.forall₂_nil_left_iff] at each
      rw [each]
      exact .nil
  · have start : Running h h.fresh (h.alloc (.array [])) none [] none :=
      ⟨fun a there => Heap.cells_alloc_other there, new, ⟨[], Heap.cells_alloc_self, .nil⟩, .none, nofun⟩
    have enough : frames.length < elements.length + 1 := by
      rw [each.length_eq]
      exact Nat.lt_succ_self _
    obtain ⟨h₁, current, done, cur, run, running, all⟩ := start.visitFrom array (i := 0) each enough
    obtain ⟨h₂, last, running₂⟩ := running.pushCurrent
    obtain ⟨out, array', pushed⟩ := running₂.pushed
    refine ⟨h₂, h.fresh, ?_, ⟨out, array', ?_⟩, new, running₂.kept⟩
    · rw [Objects.getOptimizedFrames, readArray, array]
      simp only [Option.bind_eq_bind, Option.bind_some, if_neg empty, run, last]
    · rw [all] at pushed
      exact pushed.imp fun a f reads => reads.1

end Run

section Preserved

/-- What the optimizer keeps of `frames` in `out`. -/
structure Preserves (frames out : List (Frame N)) : Prop where
  /-- Every frame has the same input, and the same stands between the inputs. -/
  expands : RunsFit (2 ^ 53) frames → expand out = expand frames
  /-- Nothing is merged across a frame that is no input. -/
  splits : ∀ front barrier back, frames = front ++ barrier :: back → barrier.isInput = false →
    out = Editor.getOptimizedFrames front ++ barrier :: Editor.getOptimizedFrames back
  /-- No two inputs next to each other are the same. -/
  apart : out.IsChain fun a b => ¬ a.Same b

theorem getOptimizedFrames_preserves {h : Heap (Object N)} {source : Nat} {frames : List (Frame N)}
    (exact_ : N.AddsExactly (2 ^ 53)) (reads : ReadsArray h source frames) :
    ∃ h' optimized out, Objects.getOptimizedFrames h source = some (h', optimized) ∧ ReadsArray h' optimized out ∧
      Preserves frames out ∧ (∀ a ∈ h.live, h'.cells a = h.cells a) ∧
      ∃ h'' again, Objects.getOptimizedFrames h' optimized = some (h'', again) ∧ ReadsArray h'' again out := by
  obtain ⟨h', optimized, run, out, -, kept⟩ := exists_getOptimizedFrames reads
  obtain ⟨h'', again, run', out', -, -⟩ := exists_getOptimizedFrames out
  rw [getOptimizedFrames_idempotent] at out'
  have sets := reads.isSet
  refine ⟨h', optimized, Editor.getOptimizedFrames frames, run, out, ⟨?_, ?_, isChain_not_same sets⟩, kept, h'', again,
    run', out'⟩
  · intro fits
    exact @expand_optimizeLoop N _ frames [] none exact_ rfl fits sets
  · rintro front barrier back rfl plain
    exact optimizeLoop_split plain

def number (n : Nat) : rounded.Number := rounded.ofDecimal false n 0

theorem count_number (n : Nat) : rounded.Natural (number n) ∧ rounded.count (number n) = n := by
  have is := Shortest.is_ofDecimal n (Int.le_refl 0)
  rw [Int.toNat_zero, Nat.pow_zero, Nat.mul_one] at is
  exact natural_of_is is

/-- The button A for some frames. -/
def pressA (n : Nat) : Frame rounded := .input (number n) ["A".toList] ⟨number 0, number 0⟩ ⟨number 0, number 0⟩

theorem pressA_lasts (n : Nat) : ((pressA n).IsSet ∧ (pressA n).Natural) ∧ (pressA n).count = n :=
  ⟨⟨List.nodup_singleton _, (count_number n).1⟩, (count_number n).2⟩

/-- A comment between three inputs that share one object. -/
def sampleFrames : List (Frame rounded) := [pressA 3, pressA 3, .comment "jump".toList, pressA 3]

def sampleHeap : Heap (Object rounded) :=
  (((((Heap.empty.alloc (.set ⟨["A".toList], List.nodup_singleton _⟩)).alloc (.stick ⟨number 0, number 0⟩)).alloc
    (.stick ⟨number 0, number 0⟩)).alloc (.input ⟨number 3, 0, 1, 2⟩)).alloc
    (.other ⟨.comment "jump".toList, rfl⟩)).alloc (.array [3, 3, 4, 3])

theorem sample_preserved : ∃ h' optimized out, Objects.getOptimizedFrames sampleHeap 5 = some (h', optimized) ∧
    ReadsArray h' optimized out ∧ Preserves sampleFrames out ∧
    (∀ a ∈ sampleHeap.live, h'.cells a = sampleHeap.cells a) ∧
    ∃ h'' again, Objects.getOptimizedFrames h' optimized = some (h'', again) ∧ ReadsArray h'' again out := by
  have input : Reads sampleHeap 3 (pressA 3) :=
    @Reads.input rounded sampleHeap 3 ⟨number 3, 0, 1, 2⟩ ⟨["A".toList], List.nodup_singleton _⟩ _ _ rfl rfl rfl rfl
  have comment : Reads sampleHeap 4 (.comment "jump".toList) :=
    @Reads.other rounded sampleHeap 4 ⟨.comment "jump".toList, rfl⟩ rfl
  exact getOptimizedFrames_preserves addsExactly_rounded
    ⟨[3, 3, 4, 3], rfl, .cons input (.cons input (.cons comment (.cons input .nil)))⟩

/-- Where a sum is rounded, frames are lost or won. -/
theorem expand_rounded {n m k : Nat} (sum : rounded.add (number n) (number m) = number k) (rounds : k ≠ n + m) :
    expand (Editor.getOptimizedFrames [pressA n, pressA m]) ≠ expand [pressA n, pressA m] := by
  have same : (pressA n).Same (pressA m) := by
    refine ⟨rfl, ?_, ?_⟩
    · decide +kernel
    · decide +kernel
  have merged : (pressA n).merges (pressA m) = true := (merges_iff (pressA_lasts n).1.1 (pressA_lasts m).1.1).mpr same
  have out : Editor.getOptimizedFrames [pressA n, pressA m] = [pressA k] := by
    rw [pressA, pressA, Editor.getOptimizedFrames, optimizeLoop_first, optimizeLoop_merge, sum]
    · rfl
    · exact merged
  intro all
  have lengths := congrArg List.length all
  rw [out, @expand_same rounded [pressA m] (pressA n) rfl (List.forall_mem_singleton.mpr same),
    @expand_same rounded [] (pressA k) rfl fun _ none_ => absurd none_ List.not_mem_nil,
    List.length_replicate, List.length_replicate] at lengths
  simp only [List.map_cons, List.map_nil, List.sum_cons, List.sum_nil, (pressA_lasts n).2, (pressA_lasts m).2,
    (pressA_lasts k).2, Nat.add_zero] at lengths
  exact rounds lengths

/-- A duration of `2 ^ 53` does not grow by one. -/
theorem long_run_rounded : ¬ ∀ frames : List (Frame rounded), (∀ f ∈ frames, f.IsSet ∧ f.Natural) →
    expand (Editor.getOptimizedFrames frames) = expand frames := by
  intro all
  have sum : rounded.add (number (2 ^ 53)) (number 1) = number (2 ^ 53) := by decide +kernel
  apply expand_rounded sum (by decide)
  apply all
  exact List.forall_mem_cons.mpr ⟨(pressA_lasts _).1, List.forall_mem_singleton.mpr (pressA_lasts _).1⟩

end Preserved

end LotusKit.Editor.Objects

import LotusKit.Tas.Recording

/-! The time of a recording. Frames may be of any length; what is put out and what is still
accumulated take up as much time as was recorded. -/

namespace LotusKit.Tas
open LotusKit.Schedule LotusKit.Lib.RunLength

namespace Record
variable (r : Record)

/-- What `calcCompletedInput` gives to `emitCompletedInput`, an input and its `outputDuration60`. -/
def calcCompletedInputCalls : List (PlaybackInput × Nat) := [(r.accumulatorInput, r.accumulatedInput60)]

/-- The calls of `emitCompletedInput` in a frame. -/
def recordCalcCalls : List (PlaybackInput × Nat) :=
  if r.isRecordActive = false then []
  else if isEquivalent r.currentInput r.accumulatorInput then []
  else r.calcCompletedInputCalls

/-- What a frame does besides them. -/
def accumulate (deltaFrame60 : Nat) : Record :=
  if r.isRecordActive = false then r
  else
    let r := { r with accumulatedRecord60 := u32 (r.accumulatedRecord60 + deltaFrame60) }
    if isEquivalent r.currentInput r.accumulatorInput then
      { r with accumulatedInput60 := u32 (r.accumulatedInput60 + deltaFrame60) }
    else { r with accumulatedInput60 := deltaFrame60, accumulatorInput := r.currentInput }

def emitAll (calls : List (PlaybackInput × Nat)) : Record :=
  calls.foldl (fun r call => r.emitCompletedInput call.1 call.2) r

/-- A frame puts out what it passes to `emitCompletedInput`, and nothing else. -/
theorem recordCalc_eq (deltaFrame60 : Nat) :
    r.recordCalc deltaFrame60 = (r.accumulate deltaFrame60).emitAll r.recordCalcCalls := by
  unfold recordCalc accumulate recordCalcCalls
  split
  · rfl
  · simp only
    split
    · rfl
    · rfl

theorem endDump_eq : r.endDump =
    (({ r with
        isRecordActive := false
        accumulatedInput60 := 0
        accumulatorInput := r.currentInput } : Record).emitAll r.calcCompletedInputCalls).emitInputImpl
      (.literal (if r.useFormat_nxTASAll then [] else scriptEnd)) := by
  rw [endDump, calcCompletedInput_eq, emitAll, calcCompletedInputCalls, List.foldl_cons, List.foldl_nil,
    emitCompletedInput_eq]
  rfl

end Record

/-- A recording, and all that `emitCompletedInput` was called with since `beginDump`. -/
structure Recording where
  record : Record
  completed : List (PlaybackInput × Nat)

namespace Recording

def beginDump (r : Record) : Recording := ⟨r.beginDumpImpl, []⟩

/-- A frame with an input, and how long it takes. -/
def frame (s : Recording) (input : PlaybackInput × Nat) : Recording where
  record := s.record.frame input.2 input.1
  completed := s.completed ++ (s.record.applyCurrentInput input.1).recordCalcCalls

def endDump (s : Recording) : Recording where
  record := s.record.endDump
  completed := s.completed ++ s.record.calcCompletedInputCalls

/-- The recording of a number of frames. -/
def recorded (r : Record) (frames : List (PlaybackInput × Nat)) : Recording :=
  frames.foldl frame (beginDump r)

/-- The time put out so far. -/
def output60 (s : Recording) : Nat := (s.completed.map Prod.snd).sum

/-- What has been put out, without the inputs that took no time. -/
def outputs (s : Recording) : List (PlaybackInput × Nat) := s.completed.filter fun run => 0 < run.2

variable {s : Recording} {acc : Accumulator PlaybackInput} {input : PlaybackInput × Nat}

/-- The recording holds what the accumulator holds. -/
structure Accumulates (s : Recording) (acc : Accumulator PlaybackInput) : Prop where
  isRecordActive : s.record.isRecordActive = true
  completed : s.completed = acc.complete
  accumulatorInput : s.record.accumulatorInput = acc.held
  accumulatedInput60 : s.record.accumulatedInput60 = acc.count
  accumulatedRecord60 : s.record.accumulatedRecord60 = acc.expand.length

theorem accumulates_beginDump (r : Record) : (beginDump r).Accumulates r.begun :=
  ⟨rfl, rfl, rfl, rfl, rfl⟩

/-- All that is accumulated is part of the time of the recording. -/
theorem Accumulates.count_le (accumulates : s.Accumulates acc) : acc.count ≤ s.record.accumulatedRecord60 := by
  rw [accumulates.accumulatedRecord60, Accumulator.expand, List.length_append, List.length_replicate]
  exact Nat.le_add_left _ _

theorem Accumulates.frame (accumulates : s.Accumulates acc)
    (small : s.record.accumulatedRecord60 + input.2 < 2 ^ 32) : (s.frame input).Accumulates (acc.hold input) := by
  have least := accumulates.count_le
  obtain ⟨active, completed, held, count, total⟩ := accumulates
  have whole : u32 (s.record.accumulatedRecord60 + input.2) = (acc.hold input).expand.length := by
    rw [acc.expand_hold, List.length_append, List.length_replicate, ← total]
    exact Nat.mod_eq_of_lt small
  rw [Accumulator.hold] at whole ⊢
  simp only [Recording.frame, Record.frame, Record.recordCalc, Record.recordCalcCalls, Record.applyCurrentInput,
    active, Bool.true_eq_false, if_false]
  by_cases same : input.1 = acc.held
  · have equivalent : Record.isEquivalent input.1 s.record.accumulatorInput = true :=
      (Record.isEquivalent_iff _ _).mpr (same.trans held.symm)
    rw [if_pos same] at whole ⊢
    rw [if_pos equivalent, if_pos equivalent, List.append_nil]
    refine ⟨rfl, completed, held, ?_, whole⟩
    show u32 (s.record.accumulatedInput60 + input.2) = acc.count + input.2
    rw [count]
    exact Nat.mod_eq_of_lt (by omega)
  · have another : ¬Record.isEquivalent input.1 s.record.accumulatorInput = true := fun is =>
      same (((Record.isEquivalent_iff _ _).mp is).trans held)
    rw [if_neg same] at whole ⊢
    rw [if_neg another, if_neg another, Record.calcCompletedInput_eq, Record.calcCompletedInputCalls]
    refine ⟨rfl, ?_, rfl, rfl, whole⟩
    show _ ++ [(s.record.accumulatorInput, s.record.accumulatedInput60)] = _
    rw [completed, held, count]

theorem Accumulates.frames {frames : List (PlaybackInput × Nat)} (accumulates : s.Accumulates acc)
    (small : s.record.accumulatedRecord60 + (frames.map Prod.snd).sum < 2 ^ 32) :
    (frames.foldl Recording.frame s).Accumulates (acc.holdAll frames) := by
  induction frames generalizing s acc with
  | nil => exact accumulates
  | cons input frames ih =>
    rw [List.map_cons, List.sum_cons] at small
    have next := @accumulates.frame _ _ input (by omega)
    apply ih next
    rw [next.accumulatedRecord60, acc.expand_hold, List.length_append, List.length_replicate,
      ← accumulates.accumulatedRecord60]
    omega

/-- What was put out and what is accumulated take up the time of the recording. -/
theorem Accumulates.output60 (accumulates : s.Accumulates acc) :
    s.output60 + s.record.accumulatedInput60 = s.record.accumulatedRecord60 := by
  rw [Recording.output60, accumulates.completed, accumulates.accumulatedInput60, accumulates.accumulatedRecord60,
    Accumulator.expand, List.length_append, List.length_replicate, length_expand]

theorem Accumulates.runs_eq (accumulates : s.Accumulates acc) : s.endDump.completed = acc.runs := by
  rw [endDump, Record.calcCompletedInputCalls, accumulates.completed, accumulates.accumulatorInput,
    accumulates.accumulatedInput60]
  rfl

/-- `endDump` puts out the rest. -/
theorem Accumulates.endDump_output60 (accumulates : s.Accumulates acc) :
    s.endDump.output60 = s.endDump.record.accumulatedRecord60 := by
  have same : s.endDump.record.accumulatedRecord60 = s.record.accumulatedRecord60 := by
    rw [endDump, Record.endDump, Record.calcCompletedInput_eq]
    rfl
  rw [same, ← accumulates.output60, Recording.output60, Recording.output60, endDump, Record.calcCompletedInputCalls,
    List.map_append, List.sum_append, List.map_singleton, List.sum_singleton]

theorem accumulates_recorded (r : Record) {frames : List (PlaybackInput × Nat)}
    (small : (frames.map Prod.snd).sum < 2 ^ 32) :
    (recorded r frames).Accumulates (r.begun.holdAll frames) := by
  apply (accumulates_beginDump r).frames
  show 0 + _ < _
  omega

theorem begun_recorded (r : Record) {frames : List (PlaybackInput × Nat)}
    (positive : ∀ input ∈ frames, 0 < input.2) : Begun (r.begun.holdAll frames).runs :=
  Accumulator.begun_holdAll ⟨List.forall_mem_nil _, List.isChain_singleton _⟩ positive

/-- The input that was put out last is not the one that is accumulated. -/
theorem Accumulates.last_ne (accumulates : s.Accumulates acc) (begun : Begun acc.runs)
    {run : PlaybackInput × Nat} (last : run ∈ s.outputs.getLast?) : run.1 ≠ s.record.accumulatorInput := by
  have differ := begun.proper.differ
  rw [outputs, accumulates.completed] at last
  rw [accumulates.accumulatorInput]
  by_cases some_ : 0 < acc.count
  · rw [Accumulator.runs, List.filter_append, List.filter_cons_of_pos (by simpa using some_),
      List.filter_nil, List.isChain_append] at differ
    exact differ.2.2 run last (acc.held, acc.count) rfl
  · -- a run of no time is the first one, with nothing before it
    cases complete : acc.complete with
    | nil =>
      rw [complete] at last
      cases last
    | cons first rest =>
      have positive := begun.positive (acc.held, acc.count)
      rw [Accumulator.runs, complete, List.cons_append, List.tail_cons] at positive
      exact absurd (positive (List.mem_append_right _ (List.mem_singleton.mpr rfl))) some_

/-- Nothing of the time is lost, and an input that was put out is followed by another one. -/
theorem conserves (r : Record) (frames : List (PlaybackInput × Nat)) (positive : ∀ input ∈ frames, 0 < input.2)
    (small : (frames.map Prod.snd).sum < 2 ^ 32) :
    (recorded r frames).output60 + (recorded r frames).record.accumulatedInput60 =
        (recorded r frames).record.accumulatedRecord60 ∧
      (recorded r frames).outputs.IsChain (fun run next => run.1 ≠ next.1) ∧
      (∀ run ∈ (recorded r frames).outputs.getLast?, run.1 ≠ (recorded r frames).record.accumulatorInput) ∧
      (recorded r frames).endDump.output60 = (recorded r frames).endDump.record.accumulatedRecord60 ∧
      (recorded r frames).endDump.outputs.IsChain fun run next => run.1 ≠ next.1 := by
  have accumulates := accumulates_recorded r small
  have begun := begun_recorded r positive
  have chain := begun.proper.differ
  rw [← accumulates.runs_eq] at chain
  refine ⟨accumulates.output60, ?_, fun run last => accumulates.last_ne begun last, ?_, chain⟩
  · rw [endDump, List.filter_append, List.isChain_append] at chain
    exact chain.1
  · rw [accumulates.endDump_output60]

/-- A recording that was never active, with a button held since before. -/
def heldBefore : Record where
  currentInput := .zero
  accumulatorInput := { PlaybackInput.zero with buttons := 1 }
  accumulatedInput60 := 0
  accumulatedRecord60 := 0
  isRecordActive := false
  inputFPSMode := .fps30_2X
  useFormat_nxTASAll := false
  useFormat_nxTASButtons := true
  emitted := []

/-- Two frames without a button and one with it. -/
theorem heldBefore_output60 :
    (recorded heldBefore [(.zero, 2), (.zero, 3), (heldBefore.accumulatorInput, 2)]).endDump.output60 = 7 :=
  (conserves heldBefore [(.zero, 2), (.zero, 3), (heldBefore.accumulatorInput, 2)] (by decide)
    (by decide)).2.2.2.1.trans (by decide)

end Recording

end LotusKit.Tas

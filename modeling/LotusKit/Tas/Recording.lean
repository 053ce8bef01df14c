import LotusKit.Lib.RunLength
import LotusKit.Tas.Record

/-! A recording as runs. `Record::calc` is the accumulator of the run-length library, with
durations in 60ths modulo `2 ^ 32`; in the AngelScript formats every run that is not of
length zero becomes one call. -/

namespace LotusKit.Tas
open LotusKit.Schedule LotusKit.Lib.RunLength

namespace Record
variable (r : Record)

/-- What one call of `emitCompletedInput` adds. -/
def completedLines (output : PlaybackInput) (outputDuration60 : Nat) : List Line :=
  if outputDuration60 = 0 then []
  else
    let outputDuration := outputDuration60 / r.inputFPSMode.factor
    let outputTimestamp := r.accumulatedRecord60 / r.inputFPSMode.factor
    let keys := namedButtons output.buttons
    if r.useFormat_nxTASAll then
      (nxTasLabels outputTimestamp outputDuration).map fun fr =>
        .nxTas (asS32 fr) keys output.lStick output.rStick
    else if r.useFormat_nxTASButtons then
      [.asInput (asS32 outputDuration) (inputArgs (.enum keys) output)]
    else [.asInput (asS32 outputDuration) (inputArgs (.raw output.buttons.toInt) output)]

theorem foldl_emitInputImpl (lines : List Line) :
    lines.foldl (fun r line => r.emitInputImpl line) r = { r with emitted := r.emitted ++ lines } := by
  induction lines generalizing r with
  | nil => rw [List.foldl_nil, List.append_nil]
  | cons line lines ih =>
    rw [List.foldl_cons, ih]
    simp only [emitInputImpl, List.append_assoc, List.singleton_append]

theorem emitCompletedInput_eq (output : PlaybackInput) (outputDuration60 : Nat) :
    r.emitCompletedInput output outputDuration60 =
      { r with emitted := r.emitted ++ r.completedLines output outputDuration60 } := by
  unfold emitCompletedInput completedLines
  split
  · rw [List.append_nil]
  · simp only
    split
    · have folded := r.foldl_emitInputImpl ((nxTasLabels
        (r.accumulatedRecord60 / r.inputFPSMode.factor)
        (outputDuration60 / r.inputFPSMode.factor)).map fun fr =>
          .nxTas (asS32 fr) (namedButtons output.buttons) output.lStick output.rStick)
      rw [List.foldl_map] at folded
      exact folded
    · split <;> rfl

theorem calcCompletedInput_eq (remainderInit60 : Nat) :
    r.calcCompletedInput remainderInit60 =
      { r with
        accumulatedInput60 := remainderInit60
        accumulatorInput := r.currentInput
        emitted := r.emitted ++ r.completedLines r.accumulatorInput r.accumulatedInput60 } :=
  emitCompletedInput_eq _ _ _

theorem endDump_emitted :
    r.endDump.emitted = r.emitted ++ r.completedLines r.accumulatorInput r.accumulatedInput60 ++
      [.literal (if r.useFormat_nxTASAll then [] else scriptEnd)] := by
  rw [endDump, calcCompletedInput_eq]
  rfl

/-- In the AngelScript formats a line does not depend on when it is put out. -/
theorem completedLines_script {r r' : Record} (script : r.useFormat_nxTASAll = false)
    (mode : r'.inputFPSMode = r.inputFPSMode)
    (all : r'.useFormat_nxTASAll = r.useFormat_nxTASAll)
    (buttons : r'.useFormat_nxTASButtons = r.useFormat_nxTASButtons) (output : PlaybackInput)
    (outputDuration60 : Nat) :
    r'.completedLines output outputDuration60 = r.completedLines output outputDuration60 := by
  simp only [completedLines, mode, all, buttons, script, Bool.false_eq_true, if_false]

theorem isEquivalent_iff (a b : PlaybackInput) : isEquivalent a b = true ↔ a = b := by
  obtain ⟨buttons, l, r⟩ := a
  obtain ⟨buttons', l', r'⟩ := b
  simp [isEquivalent]

/-- The accumulator of a recording that just began. -/
def begun : Accumulator PlaybackInput := ⟨[], r.accumulatorInput, 0⟩

/-- The runs of a recording, the one that `endDump` closes last. -/
def runs (inputs : List PlaybackInput) : List (PlaybackInput × Nat) := (r.begun.pushAll inputs).runs

/-- The line for a run, in the AngelScript formats. -/
def runLines (run : PlaybackInput × Nat) : List Line :=
  r.completedLines run.1 (u32 (run.2 * r.inputFPSMode.factor))

/-- The record `r` after frames that accumulated `acc`, in a recording that started from
`r₀`. -/
structure Accumulates (r₀ : Record) (acc : Accumulator PlaybackInput) (r : Record) : Prop where
  accumulatorInput : r.accumulatorInput = acc.held
  accumulatedInput60 : r.accumulatedInput60 = u32 (acc.count * r₀.inputFPSMode.factor)
  isRecordActive : r.isRecordActive = true
  inputFPSMode : r.inputFPSMode = r₀.inputFPSMode
  useFormat_nxTASAll : r.useFormat_nxTASAll = r₀.useFormat_nxTASAll
  useFormat_nxTASButtons : r.useFormat_nxTASButtons = r₀.useFormat_nxTASButtons
  emitted : r₀.useFormat_nxTASAll = false →
    r.emitted = r₀.emitted ++ .literal scriptStart :: acc.complete.flatMap r₀.runLines

theorem accumulates_beginDumpImpl : Accumulates r r.begun r.beginDumpImpl := by
  refine ⟨rfl, ?_, rfl, rfl, rfl, rfl, fun script => ?_⟩
  · show 0 = u32 (0 * r.inputFPSMode.factor)
    rw [Nat.zero_mul]
    rfl
  · simp [beginDumpImpl, emitInputImpl, script, begun]

variable {r}

/-- What closing the accumulated run puts out. -/
theorem Accumulates.closes {r₀ r' : Record} {acc : Accumulator PlaybackInput}
    (before : Accumulates r₀ acc r) (script : r₀.useFormat_nxTASAll = false)
    (mode : r'.inputFPSMode = r.inputFPSMode)
    (all : r'.useFormat_nxTASAll = r.useFormat_nxTASAll)
    (buttons : r'.useFormat_nxTASButtons = r.useFormat_nxTASButtons) :
    r'.completedLines r.accumulatorInput r.accumulatedInput60 = r₀.runLines (acc.held, acc.count) := by
  rw [before.accumulatorInput, before.accumulatedInput60]
  exact completedLines_script script (mode.trans before.inputFPSMode)
    (all.trans before.useFormat_nxTASAll) (buttons.trans before.useFormat_nxTASButtons) _ _

/-- A frame is one push of the accumulator. -/
theorem Accumulates.frame {r₀ : Record} {acc : Accumulator PlaybackInput}
    (before : Accumulates r₀ acc r) (src : PlaybackInput) :
    Accumulates r₀ (acc.push src) (r.frame r₀.inputFPSMode.factor src) := by
  have closes := @before.closes
  obtain ⟨held, count, active, mode, all, buttons, emitted⟩ := before
  simp only [Record.frame, applyCurrentInput, recordCalc, active, Bool.true_eq_false, if_false]
  by_cases same : src = acc.held
  · rw [if_pos ((isEquivalent_iff _ _).mpr (same.trans held.symm)), Accumulator.push, if_pos same]
    refine ⟨held, ?_, rfl, mode, all, buttons, emitted⟩
    show u32 (r.accumulatedInput60 + r₀.inputFPSMode.factor) =
      u32 ((acc.count + 1) * r₀.inputFPSMode.factor)
    rw [count, Nat.succ_mul]
    unfold u32
    omega
  · have differs : ¬isEquivalent src r.accumulatorInput = true := fun is =>
      same (((isEquivalent_iff _ _).mp is).trans held)
    have closed := closes { r with
      currentInput := src
      isRecordActive := true
      accumulatedRecord60 := u32 (r.accumulatedRecord60 + r₀.inputFPSMode.factor) }
    rw [if_neg differs, Accumulator.push, if_neg same, calcCompletedInput_eq]
    refine ⟨rfl, ?_, rfl, mode, all, buttons, fun script => ?_⟩
    · show r₀.inputFPSMode.factor = u32 (1 * r₀.inputFPSMode.factor)
      rw [Nat.one_mul]
      cases r₀.inputFPSMode <;> rfl
    · simp only [closed script rfl rfl rfl]
      rw [emitted script, List.flatMap_append, List.append_assoc, List.cons_append,
        List.flatMap_singleton]

theorem Accumulates.frames {r₀ : Record} {acc : Accumulator PlaybackInput}
    (before : Accumulates r₀ acc r) (inputs : List PlaybackInput) :
    Accumulates r₀ (acc.pushAll inputs) (inputs.foldl (Record.frame r₀.inputFPSMode.factor) r) := by
  induction inputs generalizing acc r with
  | nil => exact before
  | cons src inputs ih => exact ih (before.frame src)

/-- A recorded script: its first line, a line for each run, and its last line. -/
theorem dump_emitted (script : r.useFormat_nxTASAll = false) (inputs : List PlaybackInput) :
    (r.dump inputs).emitted = r.emitted ++ .literal scriptStart ::
      ((r.runs inputs).flatMap r.runLines ++ [.literal scriptEnd]) := by
  have after := r.accumulates_beginDumpImpl.frames inputs
  have closes := @after.closes
  have emitted := after.emitted script
  have all := after.useFormat_nxTASAll
  rw [dump, endDump_emitted]
  generalize inputs.foldl (Record.frame r.inputFPSMode.factor) r.beginDumpImpl = last at *
  rw [closes last script rfl rfl rfl, all, script, emitted, runs, Accumulator.runs,
    List.flatMap_append, List.flatMap_singleton]
  simp only [Bool.false_eq_true, if_false, List.append_assoc, List.cons_append]

/-- The runs of a recording stand for its inputs. -/
theorem expand_runs (inputs : List PlaybackInput) : expand (r.runs inputs) = inputs := by
  calc expand (r.runs inputs) = r.begun.expand ++ inputs := by
        rw [runs, Accumulator.expand_runs, Accumulator.expand_pushAll]
    _ = inputs := rfl

end Record

end LotusKit.Tas

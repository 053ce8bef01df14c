import LotusKit.Tas.Recording

/-! The labels of an nx-TAS recording. They are counted back from the time recorded by the
end of the frame that closes the segment. A frame is counted when it is recorded, so no
label reaches the number of the last frame. -/

namespace LotusKit.Tas
open LotusKit.Schedule

namespace Record
variable (r : Record)

/-- The lines for `inputs`, the first labelled `first`. -/
def nxTasLines (first : Nat) (inputs : List PlaybackInput) : List Line :=
  inputs.mapIdx fun k x => .nxTas ((first + k : Nat) : Int) (namedButtons x.buttons) x.lStick x.rStick

/-- One line for each recorded frame, labelled from 0 on. -/
def LabelsFrames (inputs : List PlaybackInput) : Prop :=
  (r.dump inputs).emitted =
    r.emitted ++ .literal [] :: (nxTasLines 0 inputs ++ [.literal []])

/-- A line of a recording of which `frames` frames are counted: its label is not the last
frame's. -/
def Below (frames : Nat) (line : Line) : Prop :=
  ∃ label keys l r, line = .nxTas label keys l r ∧ label + 1 < (frames : Int)

theorem Below.mono {frames more : Nat} {line : Line} (below : Below frames line)
    (le : frames ≤ more) : Below more line := by
  obtain ⟨label, keys, l, r, same, small⟩ := below
  exact ⟨label, keys, l, r, same, by omega⟩

theorem mem_nxTasLabels {label outputTimestamp outputDuration : Nat}
    (member : label ∈ nxTasLabels outputTimestamp outputDuration) :
    u32Sub (u32Sub outputTimestamp outputDuration) 1 ≤ label ∧
      label < u32Sub outputTimestamp 1 := by
  obtain ⟨k, inside, rfl⟩ := List.mem_map.mp member
  have bound := List.mem_range.mp inside
  omega

theorem asS32_lt (n : Nat) (word : n < 2 ^ 32) : asS32 n < 2 ^ 31 := by
  unfold asS32
  split <;> omega

theorem asS32_le (n : Nat) : asS32 n ≤ n := by
  unfold asS32
  split <;> omega

/-- A wrapped time stamp of zero gives labels that print as negative numbers, unless the
recording is longer than any label. -/
theorem label_below {mode : InputDurationScalingStrategy} {frames duration60 label : Nat}
    (counted : 0 < frames) (word : duration60 < 2 ^ 32)
    (member : label ∈ nxTasLabels (u32 (frames * mode.factor) / mode.factor)
      (duration60 / mode.factor)) :
    asS32 label + 1 < frames := by
  obtain ⟨least, most⟩ := mem_nxTasLabels member
  have le := asS32_le label
  generalize stamp : u32 (frames * mode.factor) / mode.factor = outputTimestamp at least most
  have stampLe : outputTimestamp ≤ frames := by
    rw [← stamp]
    apply Nat.div_le_of_le_mul
    rw [Nat.mul_comm]
    exact Nat.mod_le _ _
  rcases Nat.eq_zero_or_pos outputTimestamp with zero | positive
  · rw [zero] at least most
    have durationLe : duration60 / mode.factor ≤ duration60 := Nat.div_le_self _ _
    have label32 := asS32_lt label (Nat.lt_trans most (u32_lt _))
    cases mode with
    | fps60_1X =>
      simp only [InputDurationScalingStrategy.factor, u32] at stamp
      omega
    | fps30_2X =>
      simp only [InputDurationScalingStrategy.factor, u32Sub, u32] at least most
      unfold asS32
      split <;> omega
    | fps20_3X =>
      simp only [InputDurationScalingStrategy.factor, u32Sub, u32] at least most
      unfold asS32
      split <;> omega
  · have limit : u32Sub outputTimestamp 1 = outputTimestamp - 1 := by
      have bound : outputTimestamp < 2 ^ 32 := by
        rw [← stamp]
        exact Nat.lt_of_le_of_lt (Nat.div_le_self _ _) (u32_lt _)
      unfold u32Sub u32
      omega
    omega

/-- The record `r` after `frames` frames of a recording that started from `r₀`. -/
structure Counts (r₀ : Record) (frames : Nat) (r : Record) : Prop where
  isRecordActive : r.isRecordActive = true
  inputFPSMode : r.inputFPSMode = r₀.inputFPSMode
  useFormat_nxTASAll : r.useFormat_nxTASAll = r₀.useFormat_nxTASAll
  accumulatedInput60 : r.accumulatedInput60 < 2 ^ 32
  accumulatedRecord60 : r.accumulatedRecord60 = u32 (frames * r₀.inputFPSMode.factor)
  emitted : r₀.useFormat_nxTASAll = true →
    ∃ lines, r.emitted = r₀.emitted ++ .literal [] :: lines ∧ ∀ line ∈ lines, Below frames line

theorem counts_beginDumpImpl : Counts r 0 r.beginDumpImpl := by
  refine ⟨rfl, rfl, rfl, (by decide : (0 : Nat) < 2 ^ 32), ?_, fun nxTas => ⟨[], ?_, nofun⟩⟩
  · rw [Nat.zero_mul]
    rfl
  · simp only [beginDumpImpl, emitInputImpl, nxTas, if_true]

variable {r} {r₀ : Record} {count : Nat}

/-- What closing a segment puts out once `count` frames are counted. -/
theorem completedLines_below (nxTas : r.useFormat_nxTASAll = true)
    (counted : r.accumulatedRecord60 = u32 (count * r.inputFPSMode.factor))
    (output : PlaybackInput) {duration60 : Nat} (word : duration60 < 2 ^ 32)
    (some_ : 0 < count ∨ duration60 = 0) :
    ∀ line ∈ r.completedLines output duration60, Below count line := by
  intro line member
  unfold completedLines at member
  by_cases zero : duration60 = 0
  · rw [if_pos zero] at member
    exact absurd member List.not_mem_nil
  · rw [if_neg zero, counted] at member
    simp only [nxTas, if_true] at member
    obtain ⟨label, labelled, rfl⟩ := List.mem_map.mp member
    exact ⟨_, _, _, _, rfl, label_below (some_.resolve_right zero) word labelled⟩

theorem Counts.frame (before : Counts r₀ count r) (src : PlaybackInput) :
    Counts r₀ (count + 1) (r.frame r₀.inputFPSMode.factor src) := by
  obtain ⟨active, mode, all, word, counted, emitted⟩ := before
  have time : u32 (r.accumulatedRecord60 + r₀.inputFPSMode.factor) =
      u32 ((count + 1) * r₀.inputFPSMode.factor) := by
    rw [counted, Nat.succ_mul]
    unfold u32
    omega
  have more {lines : List Line} (below : ∀ line ∈ lines, Below count line) :
      ∀ line ∈ lines, Below (count + 1) line :=
    fun line member => (below line member).mono (Nat.le_succ count)
  simp only [Record.frame, applyCurrentInput, recordCalc, active, Bool.true_eq_false, if_false]
  split
  · refine ⟨rfl, mode, all, u32_lt _, time, fun nxTas => ?_⟩
    obtain ⟨lines, same, below⟩ := emitted nxTas
    exact ⟨lines, same, more below⟩
  · rw [calcCompletedInput_eq]
    refine ⟨rfl, mode, all, ?_, time, fun nxTas => ?_⟩
    · show r₀.inputFPSMode.factor < 2 ^ 32
      cases r₀.inputFPSMode <;> decide
    · obtain ⟨lines, same, below⟩ := emitted nxTas
      let timed : Record := { r with
        currentInput := src
        isRecordActive := true
        accumulatedRecord60 := u32 (r.accumulatedRecord60 + r₀.inputFPSMode.factor) }
      have closed := completedLines_below (r := timed) (all.trans nxTas) (mode ▸ time)
        r.accumulatorInput word (.inl (Nat.succ_pos count))
      refine ⟨lines ++ timed.completedLines r.accumulatorInput r.accumulatedInput60, ?_, ?_⟩
      · rw [← List.cons_append, ← List.append_assoc, ← same]
      · intro line member
        rcases List.mem_append.mp member with earlier | final
        · exact more below line earlier
        · exact closed line final

theorem Counts.frames (before : Counts r₀ count r) (inputs : List PlaybackInput) :
    Counts r₀ (count + inputs.length) (inputs.foldl (Record.frame r₀.inputFPSMode.factor) r) := by
  induction inputs generalizing count r with
  | nil => exact before
  | cons src inputs ih =>
    have after := ih (before.frame src)
    rw [Nat.add_right_comm, Nat.add_assoc] at after
    exact after

/-- A recording labels no line with the number of its last frame. -/
theorem dump_below (nxTas : r.useFormat_nxTASAll = true) (inputs : List PlaybackInput)
    (recorded : inputs ≠ []) :
    ∃ lines, (r.dump inputs).emitted = r.emitted ++ .literal [] :: (lines ++ [.literal []]) ∧
      ∀ line ∈ lines, Below inputs.length line := by
  have after := r.counts_beginDumpImpl.frames inputs
  rw [Nat.zero_add] at after
  obtain ⟨-, mode, all, word, counted, emitted⟩ := after
  obtain ⟨lines, same, below⟩ := emitted nxTas
  rw [dump, endDump_emitted]
  generalize inputs.foldl (Record.frame r.inputFPSMode.factor) r.beginDumpImpl = last at *
  have closed := completedLines_below (all.trans nxTas) (mode ▸ counted) last.accumulatorInput
    word (.inl (List.length_pos_iff.mpr recorded))
  refine ⟨lines ++ last.completedLines last.accumulatorInput last.accumulatedInput60, ?_, ?_⟩
  · rw [same, all, nxTas, if_pos rfl, List.append_assoc, List.append_assoc, List.append_assoc,
      List.cons_append]
  · intro line member
    rcases List.mem_append.mp member with earlier | final
    · exact below line earlier
    · exact closed line final

/-- An nx-TAS recording labels its frames exactly when it has none. -/
theorem labelsFrames_iff (nxTas : r.useFormat_nxTASAll = true) (inputs : List PlaybackInput) :
    r.LabelsFrames inputs ↔ inputs = [] := by
  constructor
  · intro labels
    by_contra recorded
    obtain ⟨lines, same, below⟩ := dump_below nxTas inputs recorded
    have equal := List.cons_inj_right _ |>.mp
      (List.append_cancel_left (same.symm.trans labels))
    have lines_ := List.append_cancel_right equal
    have positive := List.length_pos_iff.mpr recorded
    have inside : inputs.length - 1 < inputs.length := by omega
    have last : Below inputs.length
        (.nxTas ((inputs.length - 1 : Nat) : Int) (namedButtons inputs[inputs.length - 1].buttons)
          inputs[inputs.length - 1].lStick inputs[inputs.length - 1].rStick) := by
      apply below
      rw [lines_, nxTasLines, List.mem_mapIdx]
      exact ⟨inputs.length - 1, inside, by rw [Nat.zero_add]⟩
    obtain ⟨label, keys, l, r, line, small⟩ := last
    injection line with number
    omega
  · rintro rfl
    simp only [LabelsFrames, dump, endDump, calcCompletedInput_eq, beginDumpImpl, emitInputImpl,
      completedLines, List.foldl_nil, nxTas, if_true]
    simp [nxTasLines]

/-- An nx-TAS recorder after boot. -/
def nxTasAtBoot : Record where
  currentInput := .zero
  accumulatorInput := .zero
  accumulatedInput60 := 0
  accumulatedRecord60 := 0
  isRecordActive := false
  inputFPSMode := .fps30_2X
  useFormat_nxTASAll := true
  useFormat_nxTASButtons := false
  emitted := []

theorem nxTasAtBoot_labelsNothing : nxTasAtBoot.LabelsFrames [] :=
  (labelsFrames_iff rfl []).mpr rfl

/-- Two frames of nothing, and then A: the line of the third frame has the label of the
second. -/
theorem nxTasAtBoot_not_labelsFrames :
    ¬nxTasAtBoot.LabelsFrames [.zero, .zero, ⟨1, ⟨0, 0⟩, ⟨0, 0⟩⟩] := by
  unfold LabelsFrames
  decide +kernel

end Record

end LotusKit.Tas

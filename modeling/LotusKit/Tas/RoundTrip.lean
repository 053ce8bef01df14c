import LotusKit.Tas.AsScript
import Mathlib.Data.List.Flatten
import Mathlib.Tactic.IntervalCases

/-! A recorded script plays back what was recorded. The text drops the direction bits of the
sticks in the enum format and every trailing zero argument; `setCurrentInput` brings the
bits back, and the runs come back with their lengths. -/

namespace LotusKit.Tas
open LotusKit.Schedule LotusKit.Lib.RunLength LotusKit.Lib.Scan

/-- What a controller can report: sticks in 16 bits, and above the 16 buttons the direction
bits that belong to the sticks, and nothing else. -/
structure Recordable (x : PlaybackInput) : Prop where
  lStick : (-2 ^ 15 ≤ x.lStick.mX ∧ x.lStick.mX < 2 ^ 15) ∧ -2 ^ 15 ≤ x.lStick.mY ∧ x.lStick.mY < 2 ^ 15
  rStick : (-2 ^ 15 ≤ x.rStick.mX ∧ x.rStick.mX < 2 ^ 15) ∧ -2 ^ 15 ≤ x.rStick.mY ∧ x.rStick.mY < 2 ^ 15
  axisFlags : ∀ flag ∈ axisFlags x.lStick x.rStick, x.buttons.getLsbD flag.1 = flag.2
  highBits : ∀ i, 24 ≤ i → x.buttons.getLsbD i = false

theorem getLsbD_foldl_or (values : List (BitVec 64)) (init : BitVec 64) (i : Nat) :
    (values.foldl (· ||| ·) init).getLsbD i =
      (init.getLsbD i || values.any fun value => value.getLsbD i) := by
  induction values generalizing init with
  | nil => simp
  | cons value values ih =>
    rw [List.foldl_cons, ih, BitVec.getLsbD_or, List.any_cons, Bool.or_assoc]

/-- `1 << n`. -/
theorem getLsbD_one_shiftLeft (n i : Nat) :
    ((1 <<< n : Nat) : BitVec 64).getLsbD i = decide (i < 64 ∧ i = n) := by
  rw [BitVec.natCast_eq_ofNat, BitVec.getLsbD_ofNat, Nat.one_shiftLeft, Nat.testBit_two_pow,
    Bool.decide_and]
  simp only [eq_comm]

theorem NxTasButton.getLsbD_value (key : NxTasButton) (i : Nat) :
    key.value.getLsbD i = decide (i = key.bit) := by
  have small : key.bit < 64 := by cases key <;> decide
  rw [NxTasButton.value, getLsbD_one_shiftLeft]
  apply decide_eq_decide.mpr
  omega

/-- The 16 named bits. -/
theorem any_bit (i : Nat) : (NxTasButton.all.any fun key => decide (i = key.bit)) = decide (i < 16) := by
  by_cases named : i < 16
  · interval_cases i <;> decide
  · rw [decide_eq_false named, List.any_eq_false]
    intro key _ same
    have small : key.bit < 16 := by cases key <;> decide
    simp only [decide_eq_true_eq] at same
    omega

theorem getLsbD_buttonsValue (b : BitVec 64) (i : Nat) :
    (buttonsValue (namedButtons b)).getLsbD i = (decide (i < 16) && b.getLsbD i) := by
  have each : ((namedButtons b).any fun key => decide (i = key.bit)) =
      ((NxTasButton.all.any fun key => decide (i = key.bit)) && b.getLsbD i) := by
    rw [namedButtons, List.any_filter]
    induction NxTasButton.all with
    | nil => rfl
    | cons key keys ih =>
      simp only [List.any_cons, ih]
      by_cases same : i = key.bit
      · subst same
        simp
      · simp [same]
  rw [buttonsValue, getLsbD_foldl_or, List.any_map]
  simp only [Function.comp_def, NxTasButton.getLsbD_value, each, any_bit]
  simp

theorem getLsbD_rehydrateAxisFlags (b : BitVec 64) (l r : AnalogStickState) (i : Nat) :
    (rehydrateAxisFlags b l r).getLsbD i =
      (b.getLsbD i || (axisFlags l r).any fun flag => flag.2 && decide (i < 64 ∧ i = flag.1)) := by
  rw [rehydrateAxisFlags]
  induction axisFlags l r generalizing b with
  | nil => simp
  | cons flag flags ih =>
    have one : (setFlag b flag).getLsbD i =
        (b.getLsbD i || flag.2 && decide (i < 64 ∧ i = flag.1)) := by
      unfold setFlag
      by_cases set_ : flag.2 = true
      · rw [if_pos set_, BitVec.getLsbD_or, getLsbD_one_shiftLeft, set_, Bool.true_and]
      · rw [if_neg set_, Bool.eq_false_iff.mpr set_, Bool.false_and, Bool.or_false]
    rw [List.foldl_cons, ih, one, List.any_cons, Bool.or_assoc]

/-- Each direction has its bit. -/
theorem exists_axisFlag (l r : AnalogStickState) {i : Nat} (from_ : 16 ≤ i) (below : i < 24) :
    ∃ flag ∈ axisFlags l r, flag.1 = i := by
  interval_cases i <;> simp [axisFlags]

/-- Buttons that agree on the 16 buttons and claim no direction of their own are completed
to what was recorded. -/
theorem scheduledInput_of_agree {x : PlaybackInput} (recordable : Recordable x) {b : BitVec 64}
    (low : ∀ i < 16, b.getLsbD i = x.buttons.getLsbD i)
    (high : ∀ i, 16 ≤ i → b.getLsbD i = true → x.buttons.getLsbD i = true) :
    scheduledInput b x.lStick x.rStick = x := by
  have buttons : rehydrateAxisFlags b x.lStick x.rStick = x.buttons := by
    apply BitVec.eq_of_getLsbD_eq
    intro i inside
    rw [getLsbD_rehydrateAxisFlags, Bool.eq_iff_iff, Bool.or_eq_true, List.any_eq_true]
    constructor
    · rintro (given | ⟨flag, member, raised⟩)
      · rcases Nat.lt_or_ge i 16 with button | direction
        · rwa [← low i button]
        · exact high i direction given
      · simp only [Bool.and_eq_true, decide_eq_true_eq] at raised
        rw [raised.2.2, recordable.axisFlags flag member]
        exact raised.1
    · intro recorded
      rcases Nat.lt_or_ge i 16 with button | direction
      · left
        rwa [low i button]
      · right
        have below : i < 24 := by
          by_contra above
          rw [recordable.highBits i (by omega)] at recorded
          cases recorded
        obtain ⟨flag, member, rfl⟩ := exists_axisFlag x.lStick x.rStick direction below
        refine ⟨flag, member, ?_⟩
        rw [← recordable.axisFlags flag member, recorded]
        simpa using inside
  obtain ⟨xb, l, r⟩ := x
  simp only [scheduledInput, buttons]

/-- The button argument of a run's line. -/
def Record.buttonsArg (r : Record) (x : PlaybackInput) : ButtonsArg :=
  if r.useFormat_nxTASButtons then .enum (namedButtons x.buttons) else .raw x.buttons.toInt

theorem scheduledInput_buttonsArg (r : Record) {x : PlaybackInput} (recordable : Recordable x) :
    scheduledInput (r.buttonsArg x).value x.lStick x.rStick = x := by
  apply scheduledInput_of_agree recordable
  · intro i button
    unfold Record.buttonsArg
    split
    · rw [ButtonsArg.value, getLsbD_buttonsValue, decide_eq_true button, Bool.true_and]
    · rw [ButtonsArg.value, BitVec.ofInt_toInt]
  · intro i direction given
    unfold Record.buttonsArg at given
    split at given
    · rw [ButtonsArg.value, getLsbD_buttonsValue, decide_eq_false (by omega), Bool.false_and] at given
      cases given
    · rwa [ButtonsArg.value, BitVec.ofInt_toInt] at given

/-- The arguments that are left out are zero. -/
theorem call_inputArgs (r : Record) (duration : Int) (x : PlaybackInput) :
    (Record.inputArgs (r.buttonsArg x) x).call duration =
      ⟨literalU32 duration, (r.buttonsArg x).value, x.lStick, x.rStick⟩ := by
  have stick {s : AnalogStickState} (zero : ¬(s.mX ≠ 0 ∨ s.mY ≠ 0)) : s = ⟨0, 0⟩ := by
    obtain ⟨sx, sy⟩ := s
    simpa using zero
  unfold Record.inputArgs
  split
  · rfl
  · next noRight =>
    rw [stick noRight]
    split
    · rfl
    · next noLeft =>
      rw [stick noLeft]
      split
      · rfl
      · next noButtons =>
        have zero : x.buttons = 0 := by simpa using noButtons
        have value : (r.buttonsArg x).value = 0 := by
          unfold Record.buttonsArg
          rw [zero]
          split <;> decide
        rw [value]
        rfl

theorem literalU32_asS32 {n : Nat} (small : n < 2 ^ 32) : literalU32 (asS32 n) = n := by
  unfold literalU32 asS32
  split <;> omega

/-- All 16 names with a separator before each take 130 characters. -/
theorem length_buttonsStr_le (sep : Char) (b : BitVec 64) :
    (buttonsStr sep (namedButtons b)).length ≤ 129 := by
  have part : ((namedButtons b).flatMap fun key => sep :: key.name).length ≤ 130 := by
    have all : (NxTasButton.all.flatMap fun key => sep :: key.name).length = 130 := rfl
    rw [← all]
    exact (List.filter_sublist.flatMap _).length_le
  rw [buttonsStr, List.length_tail]
  split
  · decide
  · omega

theorem length_stickText_le (sep : Char) {stick : AnalogStickState}
    (x : -2 ^ 15 ≤ stick.mX ∧ stick.mX < 2 ^ 15) (y : -2 ^ 15 ≤ stick.mY ∧ stick.mY < 2 ^ 15) :
    (stickText sep stick).length ≤ 13 := by
  have lengthX : (showInt stick.mX).length ≤ 5 + 1 := length_showInt_le (by decide) (by omega)
  have lengthY : (showInt stick.mY).length ≤ 5 + 1 := length_showInt_le (by decide) (by omega)
  rw [stickText, List.length_append, List.length_cons]
  omega

theorem length_buttonsArg_le (r : Record) {x : PlaybackInput} (recordable : Recordable x) :
    (r.buttonsArg x).text.length ≤ 129 := by
  unfold Record.buttonsArg
  split
  · exact length_buttonsStr_le '|' x.buttons
  · have small : x.buttons.toNat < 2 ^ 24 := by
      apply Nat.lt_pow_two_of_testBit
      intro i above
      rw [BitVec.testBit_toNat]
      exact recordable.highBits i above
    have value : x.buttons.toInt = x.buttons.toNat := BitVec.toInt_eq_toNat_of_lt (by omega)
    have length : (showInt x.buttons.toInt).length ≤ 8 + 1 :=
      length_showInt_le (by decide) (by omega)
    rw [ButtonsArg.text]
    omega

/-- No line of a recording is cut off. -/
theorem text_eq_format (r : Record) {n : Nat} (small : n < 2 ^ 32) {x : PlaybackInput}
    (recordable : Recordable x) :
    (Line.asInput (asS32 n) (Record.inputArgs (r.buttonsArg x) x)).text =
      (Line.asInput (asS32 n) (Record.inputArgs (r.buttonsArg x) x)).format := by
  have duration : (showInt (asS32 n)).length ≤ 10 + 1 := by
    apply length_showInt_le (by decide)
    unfold asS32
    split <;> omega
  have buttons := length_buttonsArg_le r recordable
  have left := length_stickText_le ',' recordable.lStick.1 recordable.lStick.2
  have right := length_stickText_le ',' recordable.rStick.1 recordable.rStick.2
  have args : (Record.inputArgs (r.buttonsArg x) x).text.length ≤ 161 := by
    have sep : argSep.length = 2 := by decide
    unfold Record.inputArgs
    split
    · simp only [InputArgs.text, List.length_append, sep]
      omega
    · split
      · simp only [InputArgs.text, List.length_append, sep]
        omega
      · split
        · simp only [InputArgs.text, List.length_append, sep]
          omega
        · simp [InputArgs.text]
  apply List.take_of_length_le
  have start : callStart.length = 11 := by decide
  have ending : callEnd.length = 3 := by decide
  simp only [Line.format, List.length_append, start, ending, bufSize]
  omega

namespace Record
variable (r : Record)

/-- The text of a recording. -/
def scriptText (inputs : List PlaybackInput) : List Char :=
  ((r.dump inputs).emitted.drop r.emitted.length).flatMap Line.text

/-- The recorded text is a script that, executed by whoever and read with the scaling of the
recording, gives the game the recorded inputs, one a frame, and then ends. -/
def PlaysBack (inputs : List PlaybackInput) : Prop :=
  ∃ calls, readScript (r.scriptText inputs) = some calls ∧
    ∀ s : Sched, s.Idle → s.Free → ∀ source : PushSource,
      Sched.Applies r.inputFPSMode.factor
        ((s.pushFrom source .good (inputScript calls).toScript).withInputFPSMode r.inputFPSMode)
        inputs

theorem scriptText_eq (script : r.useFormat_nxTASAll = false) (inputs : List PlaybackInput) :
    r.scriptText inputs =
      scriptStart ++ (((r.runs inputs).flatMap r.runLines).flatMap Line.text ++ scriptEnd) := by
  rw [scriptText, dump_emitted script, List.drop_left]
  simp [List.flatMap_append, Line.text]

/-- The call for a run. -/
def runCall (run : PlaybackInput × Nat) : Int × InputArgs :=
  (asS32 run.2, inputArgs (r.buttonsArg run.1) run.1)

/-- A run that is short enough for the counter, of an input that was recorded. -/
structure Fits (run : PlaybackInput × Nat) : Prop where
  recordable : Recordable run.1
  positive : 0 < run.2
  small : run.2 * r.inputFPSMode.factor < 2 ^ 32

variable {r}

theorem Fits.length_lt {run : PlaybackInput × Nat} (fits : r.Fits run) : run.2 < 2 ^ 32 :=
  Nat.lt_of_le_of_lt (Nat.le_mul_of_pos_right _ r.inputFPSMode.factor_pos) fits.small

theorem Fits.runLines (script : r.useFormat_nxTASAll = false) {run : PlaybackInput × Nat}
    (fits : r.Fits run) : r.runLines run = [.asInput (r.runCall run).1 (r.runCall run).2] := by
  have positive := r.inputFPSMode.factor_pos
  have whole : run.2 * r.inputFPSMode.factor / r.inputFPSMode.factor = run.2 :=
    Nat.mul_div_cancel _ positive
  have notZero : ¬run.2 * r.inputFPSMode.factor = 0 :=
    Nat.ne_of_gt (Nat.mul_pos fits.positive positive)
  rw [Record.runLines, u32_of_lt fits.small, completedLines, if_neg notZero]
  simp only [script, Bool.false_eq_true, if_false, whole, runCall, buttonsArg]
  split <;> rfl

/-- What a run's call schedules is the run. -/
theorem Fits.run {run : PlaybackInput × Nat} (fits : r.Fits run) :
    ((r.runCall run).2.call (r.runCall run).1).run = run := by
  rw [runCall, call_inputArgs, InputCall.run, scheduledInput_buttonsArg r fits.recordable,
    literalU32_asS32 fits.length_lt]

/-- The lines of runs, those of length zero left out. -/
theorem flatMap_runLines (script : r.useFormat_nxTASAll = false) {runs : List (PlaybackInput × Nat)}
    (fit : ∀ run ∈ runs, 0 < run.2 → r.Fits run) :
    runs.flatMap r.runLines =
      ((runs.filter fun run => 0 < run.2).map r.runCall).map fun c => .asInput c.1 c.2 := by
  induction runs with
  | nil => rfl
  | cons run runs ih =>
    have rest := ih fun other member => fit other (List.mem_cons_of_mem _ member)
    by_cases positive : 0 < run.2
    · rw [List.filter_cons_of_pos (by simpa using positive), List.flatMap_cons, rest,
        (fit run List.mem_cons_self positive).runLines script]
      rfl
    · have zero : run.2 = 0 := by omega
      have empty : r.runLines run = [] := by
        rw [Record.runLines, zero, Nat.zero_mul]
        exact if_pos rfl
      rw [List.filter_cons_of_neg (by simpa using positive), List.flatMap_cons, rest, empty,
        List.nil_append]

theorem flatMap_text {runs : List (PlaybackInput × Nat)} (fit : ∀ run ∈ runs, r.Fits run) :
    ((runs.map r.runCall).map fun c => Line.asInput c.1 c.2).flatMap Line.text =
      (runs.map r.runCall).flatMap fun c => (Line.asInput c.1 c.2).format := by
  induction runs with
  | nil => rfl
  | cons run runs ih =>
    have own := fit run List.mem_cons_self
    have whole := text_eq_format r own.length_lt own.recordable
    simp only [List.map_cons, List.flatMap_cons]
    rw [ih fun other member => fit other (List.mem_cons_of_mem _ member)]
    exact congrArg (· ++ _) whole

/-- What was recorded in an AngelScript format plays back, frame by frame, provided no input
was held for `2 ^ 32` 60ths. -/
theorem playsBack (r : Record) (script : r.useFormat_nxTASAll = false) (inputs : List PlaybackInput)
    (recordable : ∀ x ∈ inputs, Recordable x)
    (short : ∀ x n, List.replicate n x <:+: inputs → n * r.inputFPSMode.factor < 2 ^ 32) :
    r.PlaysBack inputs := by
  have fit : ∀ run ∈ r.runs inputs, 0 < run.2 → r.Fits run := by
    intro run member positive
    have stretch := replicate_infix_expand member
    have held := mem_expand member positive
    rw [expand_runs] at stretch held
    exact ⟨recordable _ held, positive, short _ _ stretch⟩
  set played := (r.runs inputs).filter fun run => 0 < run.2 with hplayed
  have fits : ∀ run ∈ played, r.Fits run := by
    intro run member
    obtain ⟨within, positive⟩ := List.mem_filter.mp member
    exact fit run within (of_decide_eq_true positive)
  have runs : (played.map r.runCall).map (fun c => (c.2.call c.1).run) = played := by
    rw [List.map_map]
    conv_rhs => rw [← List.map_id played]
    exact List.map_congr_left fun run member => (fits run member).run
  have given : expand (((played.map r.runCall).map fun c => c.2.call c.1).map InputCall.run) =
      inputs := by
    rw [List.map_map]
    exact (congrArg expand runs).trans ((expand_filter _).trans (r.expand_runs inputs))
  refine ⟨(played.map r.runCall).map fun c => c.2.call c.1, ?_, fun s idle free source => ?_⟩
  · rw [r.scriptText_eq script, flatMap_runLines script fit, ← hplayed, flatMap_text fits]
    exact readScript_format _
  · have applied := Sched.applies_pushed (s := s)
      ((played.map r.runCall).map fun c => c.2.call c.1) r.inputFPSMode ?_ idle free source
    · rwa [given] at applied
    · intro call member
      simp only [List.mem_map] at member
      obtain ⟨_, ⟨run, within, rfl⟩, rfl⟩ := member
      have same := congrArg Prod.snd (fits run within).run
      have duration : ((r.runCall run).2.call (r.runCall run).1).duration = run.2 := same
      rw [InputCall.Fits, duration]
      exact ⟨(fits run within).positive, (fits run within).small⟩

/-- A recording of the untouched controller at 30 fps, from boot. -/
def atBoot : Record where
  currentInput := .zero
  accumulatorInput := .zero
  accumulatedInput60 := 0
  accumulatedRecord60 := 0
  isRecordActive := false
  inputFPSMode := .fps30_2X
  useFormat_nxTASAll := false
  useFormat_nxTASButtons := true
  emitted := []

theorem recordable_zero : Recordable .zero := by
  refine ⟨by decide, by decide, by decide, fun i _ => ?_⟩
  exact BitVec.getLsbD_zero

/-- The untouched controller for `2 ^ 31` frames: the counter is back at zero, and nothing is
put out. -/
theorem atBoot_not_playsBack : (∀ x ∈ List.replicate (2 ^ 31) PlaybackInput.zero, Recordable x) ∧
    ¬atBoot.PlaysBack (List.replicate (2 ^ 31) .zero) := by
  refine ⟨fun x member => (List.mem_replicate.mp member).2 ▸ recordable_zero, ?_⟩
  rintro ⟨calls, reads, applies⟩
  have runs : atBoot.runs (List.replicate (2 ^ 31) .zero) = [(.zero, 0 + 2 ^ 31)] := by
    have held := atBoot.begun.pushAll_replicate (2 ^ 31)
    exact congrArg Accumulator.runs held
  have nothing : atBoot.runLines (.zero, 0 + 2 ^ 31) = [] := by
    have wrapped : u32 ((0 + 2 ^ 31) * atBoot.inputFPSMode.factor) = 0 := by decide
    rw [Record.runLines, wrapped]
    exact if_pos rfl
  have text : atBoot.scriptText (List.replicate (2 ^ 31) .zero) = scriptStart ++ ([] ++ scriptEnd) := by
    rw [scriptText_eq _ rfl, runs, List.flatMap_singleton, nothing, List.flatMap_nil]
  rw [text] at reads
  obtain rfl := Option.some.inj (reads.symm.trans (readScript_format []))
  have applied := applies .init Sched.idle_init ⟨rfl, rfl, rfl⟩ .autorun
  have none_ := Sched.applies_pushed [] atBoot.inputFPSMode nofun Sched.idle_init
    ⟨rfl, rfl, rfl⟩ .autorun
  have same := congrArg List.length (applied.unique none_)
  rw [List.length_replicate] at same
  exact absurd same (by decide)

/-- A button, held for two frames, and then the left stick pushed up. -/
theorem atBoot_playsBack : atBoot.PlaysBack
    [⟨1#64, ⟨0, 0⟩, ⟨0, 0⟩⟩, ⟨1#64, ⟨0, 0⟩, ⟨0, 0⟩⟩, ⟨0x20000#64, ⟨0, 32767⟩, ⟨0, 0⟩⟩] := by
  refine playsBack atBoot rfl _ ?_ fun x n stretch => ?_
  · have high (b : BitVec 64) (small : b.toNat < 2 ^ 24) (i : Nat) (above : 24 ≤ i) :
        b.getLsbD i = false := by
      rw [← BitVec.testBit_toNat]
      exact Nat.testBit_lt_two_pow (Nat.lt_of_lt_of_le small (Nat.pow_le_pow_right (by decide) above))
    simp only [List.forall_mem_cons]
    refine ⟨⟨by decide, by decide, by decide, high _ (by decide)⟩,
      ⟨by decide, by decide, by decide, high _ (by decide)⟩,
      ⟨by decide, by decide, by decide, high _ (by decide)⟩, nofun⟩
  · have length := stretch.length_le
    have factor : atBoot.inputFPSMode.factor = 2 := rfl
    rw [List.length_replicate] at length
    simp only [List.length_cons, List.length_nil] at length
    rw [factor]
    omega

end Record

end LotusKit.Tas

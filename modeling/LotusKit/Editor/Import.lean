import LotusKit.Editor.Decimal
import LotusKit.Editor.Lines
import LotusKit.Tas.RoundTrip

/-! Recordings in the editor. A recorded script starts with `void main() {` and no newline, so
the first call stands on the line of `main`, which the editor passes over. -/

namespace LotusKit.Editor
open LotusKit.Tas LotusKit.Schedule

def Numbers.ofInt (N : Numbers) (n : Int) : N.Number := N.ofDecimal (n < 0) n.natAbs 0

section Calls

/-- A frame with its input and how many 60ths it takes. -/
def recordFrame (r : Record) (frame : PlaybackInput × Nat) : Record := r.frame (u32 frame.2) frame.1

def recorded (r : Record) (frames : List (PlaybackInput × Nat)) : Record :=
  (frames.foldl recordFrame r.beginDumpImpl).endDump

/-- What the recording puts out. -/
def emittedLines (r : Record) (frames : List (PlaybackInput × Nat)) : List Line :=
  (recorded r frames).emitted.drop r.emitted.length

def emittedText (r : Record) (frames : List (PlaybackInput × Nat)) : List Char :=
  (emittedLines r frames).flatMap Line.text

/-- The arguments of an emitted line that is a call. -/
def emittedCall : Line → Option (Int × InputArgs)
  | .asInput duration args => some (duration, args)
  | _ => none

def emittedCalls (r : Record) (frames : List (PlaybackInput × Nat)) : List (Int × InputArgs) :=
  (emittedLines r frames).filterMap emittedCall

/-- The tokens of a button argument, where `NONE` stands for none. -/
def tokens (b : ButtonsArg) : List (List Char) :=
  if b.text = "NONE".toList then [] else b.text.splitOn '|'

/-- The tokens and the sticks of a call, where what is left out is empty or zero. -/
def meaning : InputArgs → List (List Char) × AnalogStickState × AnalogStickState
  | .none => ([], ⟨0, 0⟩, ⟨0, 0⟩)
  | .buttons b => (tokens b, ⟨0, 0⟩, ⟨0, 0⟩)
  | .left b l => (tokens b, l, ⟨0, 0⟩)
  | .both b l r => (tokens b, l, r)

variable (N : Numbers)

def ofStick (s : AnalogStickState) : Stick N := ⟨N.ofInt s.mX, N.ofInt s.mY⟩

/-- The frame has the input of the call. -/
def SameInput (call : Int × InputArgs) : Frame N → Prop
  | .input duration buttons lstick rstick =>
    duration = N.ofInt call.1 ∧ (∀ token, token ∈ buttons ↔ token ∈ (meaning call.2).1) ∧
      lstick = ofStick N (meaning call.2).2.1 ∧ rstick = ofStick N (meaning call.2).2.2
  | _ => False

/-- The editor reads a recording as its calls, one frame for each. -/
def Imports (r : Record) (frames : List (PlaybackInput × Nat)) : Prop :=
  List.Forall₂ (SameInput N) (emittedCalls r frames) (parseScriptToFrames (emittedText r frames))

/-- The stretches of frames with one input, and how many 60ths each takes. -/
def stretches (held : PlaybackInput) (time : Nat) :
    List (PlaybackInput × Nat) → List (PlaybackInput × Nat)
  | [] => [(held, time)]
  | (src, deltaFrame60) :: frames =>
    if src = held then stretches held (time + deltaFrame60) frames
    else (held, time) :: stretches src deltaFrame60 frames

end Calls

section Lines
variable {r : Record}

/-- The line for a stretch. -/
def stretchLines (r : Record) (stretch : PlaybackInput × Nat) : List Line :=
  r.completedLines stretch.1 (u32 stretch.2)

theorem stretchLines_eq_nil_iff (script : r.useFormat_nxTASAll = false) (stretch : PlaybackInput × Nat) :
    stretchLines r stretch = [] ↔ u32 stretch.2 = 0 := by
  unfold stretchLines Record.completedLines
  split
  next zero => exact ⟨fun _ => zero, fun _ => rfl⟩
  next some_ =>
    simp only [script, Bool.false_eq_true, if_false]
    split
    · exact ⟨nofun, fun zero => absurd zero some_⟩
    · exact ⟨nofun, fun zero => absurd zero some_⟩

theorem stretchLines_calls (script : r.useFormat_nxTASAll = false) (stretch : PlaybackInput × Nat) :
    ∀ line ∈ stretchLines r stretch, ∃ duration args, line = .asInput duration args := by
  intro line member
  unfold stretchLines Record.completedLines at member
  split at member
  · exact absurd member List.not_mem_nil
  · simp only [script, Bool.false_eq_true, if_false] at member
    split at member
    · exact ⟨_, _, List.mem_singleton.mp member⟩
    · exact ⟨_, _, List.mem_singleton.mp member⟩

theorem recordFrame_same (active : r.isRecordActive = true) {src : PlaybackInput}
    (same : src = r.accumulatorInput) (deltaFrame60 : Nat) :
    recordFrame r (src, deltaFrame60) =
      { r with
        currentInput := src
        accumulatedRecord60 := u32 (r.accumulatedRecord60 + u32 deltaFrame60)
        accumulatedInput60 := u32 (r.accumulatedInput60 + u32 deltaFrame60) } := by
  simp only [recordFrame, Record.frame, Record.applyCurrentInput, Record.recordCalc, active,
    Bool.true_eq_false, if_false]
  rw [if_pos ((Record.isEquivalent_iff _ _).mpr same)]

/-- A frame with another input ends the stretch. -/
theorem recordFrame_other (script : r.useFormat_nxTASAll = false) (active : r.isRecordActive = true)
    {src : PlaybackInput} (other : src ≠ r.accumulatorInput) (deltaFrame60 : Nat) :
    recordFrame r (src, deltaFrame60) =
      { r with
        currentInput := src
        accumulatedRecord60 := u32 (r.accumulatedRecord60 + u32 deltaFrame60)
        accumulatedInput60 := u32 deltaFrame60
        accumulatorInput := src
        emitted := r.emitted ++ r.completedLines r.accumulatorInput r.accumulatedInput60 } := by
  have differs : ¬Record.isEquivalent src r.accumulatorInput = true := fun is =>
    other ((Record.isEquivalent_iff _ _).mp is)
  have lines := @Record.completedLines_script r { r with
    currentInput := src
    isRecordActive := true
    accumulatedRecord60 := u32 (r.accumulatedRecord60 + u32 deltaFrame60) } script rfl rfl rfl
  simp only [recordFrame, Record.frame, Record.applyCurrentInput, Record.recordCalc, active,
    Bool.true_eq_false, if_false]
  rw [if_neg differs, Record.calcCompletedInput_eq]
  simp only [lines]

/-- Frames put out a line for each stretch that ends, and the end of the recording puts out
the last one. -/
theorem emitted_frames (script : r.useFormat_nxTASAll = false) (active : r.isRecordActive = true)
    {time : Nat} (accumulated : r.accumulatedInput60 = u32 time) (frames : List (PlaybackInput × Nat)) :
    (frames.foldl recordFrame r).endDump.emitted =
      r.emitted ++ (stretches r.accumulatorInput time frames).flatMap (stretchLines r) ++ [.literal scriptEnd] := by
  induction frames generalizing r time with
  | nil =>
    rw [List.foldl_nil, Record.endDump_emitted, accumulated, script, stretches, List.flatMap_singleton]
    rfl
  | cons frame frames ih =>
    obtain ⟨src, deltaFrame60⟩ := frame
    have lines {r' : Record} (mode : r'.inputFPSMode = r.inputFPSMode)
        (all : r'.useFormat_nxTASAll = r.useFormat_nxTASAll)
        (buttons : r'.useFormat_nxTASButtons = r.useFormat_nxTASButtons) : stretchLines r' = stretchLines r := by
      funext stretch
      exact Record.completedLines_script script mode all buttons _ _
    rw [List.foldl_cons, stretches]
    by_cases same : src = r.accumulatorInput
    · have next := recordFrame_same active same deltaFrame60
      have sum : u32 (r.accumulatedInput60 + u32 deltaFrame60) = u32 (time + deltaFrame60) := by
        rw [accumulated]
        unfold u32
        omega
      have rest := @ih (recordFrame r (src, deltaFrame60)) (by rw [next, script]) (by rw [next, active])
        (time + deltaFrame60) (by rw [next, ← sum])
      have held : (recordFrame r (src, deltaFrame60)).accumulatorInput = r.accumulatorInput := by rw [next]
      have put : (recordFrame r (src, deltaFrame60)).emitted = r.emitted := by rw [next]
      rw [lines (by rw [next]) (by rw [next]) (by rw [next]), held, put] at rest
      rw [if_pos same, rest]
    · have next := recordFrame_other script active same deltaFrame60
      have rest := @ih (recordFrame r (src, deltaFrame60)) (by rw [next, script]) (by rw [next, active])
        deltaFrame60 (by rw [next])
      have held : (recordFrame r (src, deltaFrame60)).accumulatorInput = src := by rw [next]
      have put : (recordFrame r (src, deltaFrame60)).emitted =
          r.emitted ++ r.completedLines r.accumulatorInput r.accumulatedInput60 := by rw [next]
      rw [lines (by rw [next]) (by rw [next]) (by rw [next]), held, put] at rest
      rw [if_neg same, rest, List.flatMap_cons, stretchLines, accumulated]
      simp only [List.append_assoc]

theorem emittedLines_eq (script : r.useFormat_nxTASAll = false) (frames : List (PlaybackInput × Nat)) :
    emittedLines r frames = .literal scriptStart ::
      ((stretches r.accumulatorInput 0 frames).flatMap (stretchLines r) ++ [.literal scriptEnd]) := by
  have started : r.beginDumpImpl.emitted = r.emitted ++ [.literal scriptStart] := by
    simp only [Record.beginDumpImpl, Record.emitInputImpl, script, Bool.false_eq_true, if_false]
  have put := @emitted_frames r.beginDumpImpl script rfl 0 rfl frames
  have lines : stretchLines r.beginDumpImpl = stretchLines r := by
    funext stretch
    exact @Record.completedLines_script r r.beginDumpImpl script rfl rfl rfl _ _
  have held : r.beginDumpImpl.accumulatorInput = r.accumulatorInput := rfl
  rw [started, lines, held, List.append_assoc, List.append_assoc] at put
  rw [emittedLines, recorded, put, List.drop_left]
  rfl

theorem length_filterMap_calls {lines : List Line}
    (calls : ∀ line ∈ lines, ∃ duration args, line = .asInput duration args) :
    (lines.filterMap emittedCall).length = lines.length := by
  induction lines with
  | nil => rfl
  | cons line lines ih =>
    obtain ⟨duration, args, rfl⟩ := calls line List.mem_cons_self
    have rest := ih fun other member => calls other (List.mem_cons_of_mem _ member)
    have call : emittedCall (.asInput duration args) = some (duration, args) := rfl
    rw [List.filterMap_cons_some call, List.length_cons, List.length_cons, rest]

/-- A text with a newline at the end at most. -/
def OneLine (text : List Char) : Prop := ∃ body, '\n' ∉ body ∧ (text = body ∨ text = body ++ ['\n'])

theorem newline_showInt (n : Int) : '\n' ∉ LotusKit.Lib.Scan.showInt n := by
  have digits : '\n' ∉ Nat.toDigits 10 n.natAbs := by
    intro member
    exact absurd (LotusKit.Lib.Scan.isDigit_of_mem '\n' member) (by decide)
  unfold LotusKit.Lib.Scan.showInt
  split
  · rintro (_ | ⟨_, member⟩)
    exact digits member
  · exact digits

theorem newline_buttons (b : ButtonsArg) : '\n' ∉ b.text := by
  cases b with
  | enum keys =>
    intro member
    exact absurd (isEnumChar_of_mem_buttonsStr keys '\n' member) (by decide)
  | raw buttons => exact newline_showInt buttons

theorem newline_stick (s : AnalogStickState) : '\n' ∉ Tas.stickText ',' s := by
  simp [Tas.stickText, newline_showInt]

theorem newline_args (args : InputArgs) : '\n' ∉ args.text := by
  have sep : '\n' ∉ argSep := by decide
  cases args with
  | none => exact List.not_mem_nil
  | buttons b => simp [InputArgs.text, sep, newline_buttons]
  | left b l => simp [InputArgs.text, sep, newline_buttons, newline_stick]
  | both b l r => simp [InputArgs.text, sep, newline_buttons, newline_stick]

theorem oneLine_call (duration : Int) (args : InputArgs) : OneLine (Line.asInput duration args).text := by
  have body : '\n' ∉ callStart ++ LotusKit.Lib.Scan.showInt duration ++ args.text ++ ");".toList := by
    have start : '\n' ∉ callStart := by decide
    simp [start, newline_showInt, newline_args]
  have format : (Line.asInput duration args).format =
      callStart ++ LotusKit.Lib.Scan.showInt duration ++ args.text ++ ");".toList ++ ['\n'] := by
    rw [List.append_assoc _ ");".toList]
    rfl
  show OneLine ((Line.asInput duration args).format.take (bufSize - 1))
  rw [format]
  generalize callStart ++ LotusKit.Lib.Scan.showInt duration ++ args.text ++ ");".toList = text at body
  by_cases cut : bufSize - 1 ≤ text.length
  · rw [List.take_append_of_le_length cut]
    exact ⟨_, fun member => body (List.mem_of_mem_take member), .inl rfl⟩
  · rw [List.take_of_length_le (by rw [List.length_append, List.length_singleton]; omega)]
    exact ⟨text, body, .inr rfl⟩

end Lines

section Count
variable {N : Numbers}

/-- Behind the first line there is one call less than there are in the recording: the first
call is on the first line, and the last line is the brace. -/
theorem countP_tail_le {texts : List (List Char)} (lines : ∀ text ∈ texts, OneLine text)
    {front : List Char} (begun : '\n' ∉ front) :
    (((front ++ (texts.flatten ++ scriptEnd)).splitOn '\n').tail.countP (gives N)) ≤ texts.length - 1 := by
  induction texts generalizing front with
  | nil =>
    have brace : '\n' ∉ front ++ "\x7d".toList := by simp [begun]
    have split_ := List.splitOn_append_cons_self_of_not_mem brace []
    rw [List.append_assoc] at split_
    have pieces : (front ++ ([].flatten ++ scriptEnd)).splitOn '\n' = [front ++ "\x7d".toList, []] := split_
    rw [pieces]
    exact Nat.le_refl 0
  | cons text texts ih =>
    obtain ⟨body, plain, rfl | rfl⟩ := lines text List.mem_cons_self
    all_goals have rest := @ih fun other member => lines other (List.mem_cons_of_mem _ member)
    · have within : '\n' ∉ front ++ text := by simp [begun, plain]
      have less := rest within
      rw [List.append_assoc, ← List.append_assoc text, ← List.flatten_cons] at less
      rw [List.length_cons]
      omega
    · have within : '\n' ∉ front ++ body := by simp [begun, plain]
      have split_ := List.splitOn_append_cons_self_of_not_mem within (texts.flatten ++ scriptEnd)
      have text : front ++ (List.flatten ((body ++ ['\n']) :: texts) ++ scriptEnd) =
          front ++ body ++ '\n' :: (texts.flatten ++ scriptEnd) := by simp
      rw [text, split_, List.tail_cons, List.length_cons, Nat.add_sub_cancel]
      have less := @rest [] List.not_mem_nil
      rw [List.nil_append] at less
      cases texts with
      | nil => exact Nat.le_refl 0
      | cons next texts =>
        obtain ⟨first, pieces⟩ : ∃ first, (List.flatten (next :: texts) ++ scriptEnd).splitOn '\n' =
            first :: ((List.flatten (next :: texts) ++ scriptEnd).splitOn '\n').tail :=
          ⟨_, (List.cons_head_tail (List.splitOn_ne_nil _ _)).symm⟩
        rw [pieces, List.countP_cons]
        rw [List.length_cons] at less ⊢
        split <;> omega

/-- The first line of a text that starts with part of a line. -/
theorem exists_splitOn_append {front : List Char} (begun : '\n' ∉ front) (rest : List Char) :
    ∃ more later, (front ++ rest).splitOn '\n' = (front ++ more) :: later := by
  induction front with
  | nil => exact ⟨_, _, (List.cons_head_tail (List.splitOn_ne_nil '\n' rest)).symm⟩
  | cons c front ih =>
    obtain ⟨more, later, pieces⟩ := ih fun member => begun (List.mem_cons_of_mem c member)
    have other : (c == '\n') = false := by
      rw [beq_eq_false_iff_ne]
      rintro rfl
      exact begun List.mem_cons_self
    refine ⟨more, later, ?_⟩
    rw [List.cons_append, List.splitOn_cons_eq_if_modifyHead, other, pieces]
    rfl

theorem countP_script_le {texts : List (List Char)} (lines : ∀ text ∈ texts, OneLine text) :
    ((scriptStart ++ (texts.flatten ++ scriptEnd)).splitOn '\n').countP (gives N) ≤ texts.length - 1 := by
  have begun : '\n' ∉ scriptStart := by decide
  have less := countP_tail_le (N := N) lines begun
  obtain ⟨more, later, pieces⟩ := exists_splitOn_append begun (texts.flatten ++ scriptEnd)
  have main_ : gives N (scriptStart ++ more) = false := by
    have nothing := readLine_main (N := N) (' ' :: more)
    have text : scriptStart ++ more = "void main() \x7b".toList ++ ' ' :: more := rfl
    rw [gives, text, nothing]
    rfl
  rw [pieces, List.tail_cons] at less
  rw [pieces, List.countP_cons, main_]
  exact less

end Count

section Main
variable {N : Numbers} {r : Record}

theorem not_isLoopEnd_of_same {calls : List (Int × InputArgs)} {frames : List (Frame N)}
    (same : List.Forall₂ (SameInput N) calls frames) : ∀ f ∈ frames, (!isLoopEnd f) = true := by
  induction same with
  | nil => nofun
  | @cons call f calls frames input _ ih =>
    rw [List.forall_mem_cons]
    refine ⟨?_, ih⟩
    cases f with
    | loop_end => exact input.elim
    | _ => rfl

theorem parse_nothing : parseScriptToFrames (N := N) (scriptStart ++ scriptEnd) = [] := by
  have line : '\n' ∉ "void main() \x7b \x7d".toList := by decide
  have pieces : (scriptStart ++ scriptEnd).splitOn '\n' = ["void main() \x7b \x7d".toList, []] :=
    List.splitOn_append_cons_self_of_not_mem line []
  have nothing := readLine_main (N := N) " \x7d".toList
  rw [parseScriptToFrames, pieces]
  show parseLines ["void main() \x7b \x7d".toList] 0 false = []
  unfold parseLines
  have text : "void main() \x7b \x7d".toList = "void main() \x7b".toList ++ " \x7d".toList := rfl
  rw [text, nothing]
  rfl

/-- The editor reads a recording as it was put out only where no call was put out: every
stretch of one input took a multiple of `2 ^ 32` 60ths, as in a recording without frames. -/
theorem imports_iff (N : Numbers) (r : Record) (script : r.useFormat_nxTASAll = false)
    (frames : List (PlaybackInput × Nat)) :
    Imports N r frames ↔ ∀ stretch ∈ stretches r.accumulatorInput 0 frames, u32 stretch.2 = 0 := by
  have emitted := emittedLines_eq script frames
  set lines := (stretches r.accumulatorInput 0 frames).flatMap (stretchLines r) with hlines
  have calls : ∀ line ∈ lines, ∃ duration args, line = .asInput duration args := by
    intro line member
    obtain ⟨stretch, -, own⟩ := List.mem_flatMap.mp member
    exact stretchLines_calls script stretch line own
  have count : (emittedCalls r frames).length = lines.length := by
    rw [emittedCalls, emitted, List.filterMap_cons_none rfl, List.filterMap_append, ← length_filterMap_calls calls]
    simp [emittedCall]
  have text : emittedText r frames = scriptStart ++ ((lines.map Line.text).flatten ++ scriptEnd) := by
    rw [emittedText, emitted, List.flatMap_cons, List.flatMap_append, ← List.flatMap_def]
    simp [Line.text]
  constructor
  · intro imports stretch member
    by_contra some_
    have held : stretchLines r stretch ≠ [] := fun none_ => some_ ((stretchLines_eq_nil_iff script stretch).mp none_)
    obtain ⟨line, own⟩ := List.exists_mem_of_ne_nil _ held
    have positive : 0 < lines.length :=
      List.length_pos_of_mem (List.mem_flatMap.mpr ⟨stretch, member, own⟩)
    have short : ∀ text ∈ lines.map Line.text, OneLine text := by
      intro text member
      obtain ⟨line, within, rfl⟩ := List.mem_map.mp member
      obtain ⟨duration, args, rfl⟩ := calls line within
      exact oneLine_call duration args
    have same := imports.length_eq
    have all := List.countP_eq_length.mpr (not_isLoopEnd_of_same imports)
    have most : (parseScriptToFrames (N := N) (emittedText r frames)).countP (fun f => !isLoopEnd f) ≤
        lines.length - 1 := by
      calc (parseScriptToFrames (N := N) (emittedText r frames)).countP (fun f => !isLoopEnd f)
          ≤ (((emittedText r frames).splitOn '\n').filter fun l => trim l ≠ []).countP (gives N) :=
            countP_parseLines _ _ 0 false
        _ ≤ ((emittedText r frames).splitOn '\n').countP (gives N) := List.filter_sublist.countP_le
        _ ≤ (lines.map Line.text).length - 1 := by
            rw [text]
            exact countP_script_le short
        _ = lines.length - 1 := by rw [List.length_map]
    omega
  · intro zero
    have none_ : lines = [] := by
      rw [hlines, List.flatMap_eq_nil_iff]
      intro stretch member
      exact (stretchLines_eq_nil_iff script stretch).mpr (zero stretch member)
    have nothing : emittedCalls r frames = [] := by
      rw [← List.length_eq_zero_iff, count, none_]
      rfl
    have read : parseScriptToFrames (N := N) (emittedText r frames) = [] := by
      rw [text, none_]
      exact parse_nothing
    rw [Imports, nothing, read]
    exact .nil

/-- A recording without frames is imported. -/
theorem emptyRecording_imports : Imports decimals Record.atBoot [] :=
  (imports_iff decimals Record.atBoot rfl []).mpr (by decide)

/-- One frame of A: the script is `void main() { tas::input(1, KEY_A);`, a newline and a brace. -/
theorem tapA_not_imports : ¬Imports decimals Record.atBoot [(⟨1#64, ⟨0, 0⟩, ⟨0, 0⟩⟩, 2)] := by
  intro imports
  have count := imports.length_eq
  have calls : emittedCalls Record.atBoot [(⟨1#64, ⟨0, 0⟩, ⟨0, 0⟩⟩, 2)] = [(1, .buttons (.enum [.A]))] := by decide
  have text : emittedText Record.atBoot [(⟨1#64, ⟨0, 0⟩, ⟨0, 0⟩⟩, 2)] =
      "void main() \x7b tas::input(1, KEY_A);\n\x7d\n".toList := by decide
  have read : parseScriptToFrames (N := decimals) "void main() \x7b tas::input(1, KEY_A);\n\x7d\n".toList = [] := rfl
  rw [calls, text, read] at count
  cases count

end Main

end LotusKit.Editor

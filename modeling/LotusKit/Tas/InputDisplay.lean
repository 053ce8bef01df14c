import LotusKit.Schedule.Machine
import LotusKit.Tas.Record

/-! Where the applied input is seen. The npad hook gives the game the human's input with
the scheduled one applied, and injects the result back into `Record::currentInput`; the
input display and the stick hook of `player.cpp` take it from there and apply the scheduled
input once more. -/

namespace LotusKit.Tas
open LotusKit.Schedule

/-- `dst` after `Playback::applyCurrentInput(&dst)`. -/
def mutated (s : Sched) (dst : PlaybackInput) : PlaybackInput :=
  match s.applyCurrentInput dst with
  | none => dst
  | some applied => applied

/-- `NinJoyNpadDevice_calcHook`: the state the game goes on with, and the recorder. -/
def calcHook (s : Sched) (state : PlaybackInput) (r : Record) : PlaybackInput × Record :=
  let r := r.applyCurrentInput state
  match s.applyCurrentInput state with
  | none => (state, r)
  | some applied => (applied, r.applyCurrentInput applied)

/-- What `InputDisplay::draw` shows. -/
def drawInputDisplay (s : Sched) (r : Record) : PlaybackInput := mutated s r.currentInput

/-- `LX` and `LY` of the stick hook. -/
def effectiveLStick (s : Sched) (r : Record) : AnalogStickState := (mutated s r.currentInput).lStick

/-- After the npad hook, the input display and the stick hook see what the game saw. -/
def SeenAsGiven (s : Sched) (human : PlaybackInput) (r : Record) : Prop :=
  drawInputDisplay s (calcHook s human r).2 = (calcHook s human r).1 ∧
    effectiveLStick s (calcHook s human r).2 = (calcHook s human r).1.lStick

/-- The hook gives the game what it injects into the recorder. -/
theorem calcHook_currentInput (s : Sched) (state : PlaybackInput) (r : Record) :
    (calcHook s state r).2.currentInput = (calcHook s state r).1 := by
  unfold calcHook
  split <;> rfl

theorem calcHook_given (s : Sched) (state : PlaybackInput) (r : Record) :
    (calcHook s state r).1 = mutated s state := by
  unfold calcHook mutated
  split <;> rfl

theorem mutated_inactive {s : Sched} (inactive : s.isPlaybackActive = false) (dst : PlaybackInput) :
    mutated s dst = dst := by
  unfold mutated Sched.applyCurrentInput
  rw [inactive]
  rfl

theorem mutated_active {s : Sched} (active : s.isPlaybackActive = true) (dst : PlaybackInput) :
    mutated s dst =
      Sched.applyInput s.getSP.state.playbackInputPassthroughMode s.getSP.state.input dst := by
  unfold mutated Sched.applyCurrentInput
  rw [active]
  rfl

/-- Toggled twice, an axis is back where it was, which is not where it was toggled to. -/
theorem xorAxis_twice (human tas : Int) :
    let toggled := if tas = 0 then human else if human = 0 then tas else 0
    (if tas = 0 then toggled else if toggled = 0 then tas else 0) = toggled ↔ tas = 0 := by
  intro toggled
  by_cases zero : tas = 0
  · simp only [zero, if_true]
  · by_cases untouched : human = 0
    · simp only [toggled, zero, untouched, if_false, if_true]
      exact ⟨fun same => zero same.symm, False.elim⟩
    · simp only [toggled, zero, untouched, if_false, if_true]

theorem orAxis_twice (human tas : Int) :
    let held := if human ≠ 0 then human else tas
    (if held ≠ 0 then held else tas) = held := by
  intro held
  by_cases untouched : human = 0
  · simp only [held, untouched, ne_eq, not_true_eq_false, if_false, ite_self]
  · simp only [held, untouched, ne_eq, not_false_eq_true, if_true]

theorem xor_twice (human tas : BitVec 64) : human ^^^ tas ^^^ tas = human ^^^ tas ↔ tas = 0 := by
  rw [BitVec.xor_assoc, BitVec.xor_self]
  constructor
  · intro same
    exact ((BitVec.xor_right_inj human).mp same).symm
  · rintro rfl
    rfl

/-- Only toggling is undone by applying it again. -/
theorem applyInput_twice (mode : PlaybackInputPassthroughMode) (input human : PlaybackInput) :
    Sched.applyInput mode input (Sched.applyInput mode input human) =
        Sched.applyInput mode input human ↔
      (mode = .passthroughXor → input = .zero) := by
  cases mode with
  | nullVanilla => exact iff_of_true rfl nofun
  | playbackTasOnly => exact iff_of_true rfl nofun
  | passthroughOr =>
    refine iff_of_true ?_ nofun
    simp only [Sched.applyInput, PlaybackInput.mk.injEq, AnalogStickState.mk.injEq,
      BitVec.or_assoc, BitVec.or_self, true_and]
    exact ⟨⟨orAxis_twice _ _, orAxis_twice _ _⟩, ⟨orAxis_twice _ _, orAxis_twice _ _⟩⟩
  | passthroughXor =>
    obtain ⟨buttons, ⟨lx, ly⟩, ⟨rx, ry⟩⟩ := input
    simp only [Sched.applyInput, PlaybackInput.mk.injEq, AnalogStickState.mk.injEq, xor_twice,
      xorAxis_twice, PlaybackInput.zero, true_imp_iff]

/-- Everyone sees the input the game saw, unless an input other than zero is toggled. -/
theorem seenAsGiven_iff (s : Sched) (human : PlaybackInput) (r : Record) :
    SeenAsGiven s human r ↔
      (s.isPlaybackActive = true → s.getSP.state.playbackInputPassthroughMode = .passthroughXor →
        s.getSP.state.input = .zero) := by
  have draw : SeenAsGiven s human r ↔ mutated s (mutated s human) = mutated s human := by
    unfold SeenAsGiven drawInputDisplay effectiveLStick
    rw [calcHook_currentInput, calcHook_given]
    exact ⟨And.left, fun same => ⟨same, congrArg PlaybackInput.lStick same⟩⟩
  rw [draw]
  cases active : s.isPlaybackActive with
  | false =>
    simp only [mutated_inactive active]
    exact iff_of_true trivial nofun
  | true =>
    simp only [mutated_active active, true_imp_iff]
    exact applyInput_twice _ _ _

/-- A hotkey script toggles A for a while; the state at the end of its first frame. -/
def togglesA : Sched :=
  [Action.push (.hotkeyFile "sdcard:/a.as") ⟨true, false, true, true⟩
      (.call (.inputXor 9 1 ⟨0, 0⟩ ⟨0, 0⟩) .done),
    .frame 2, .tick, .tick, .tick, .tick].foldl (fun s a => s.perform a) Sched.init

/-- The game gets A, the display shows nothing. -/
theorem togglesA_not_seenAsGiven : ¬SeenAsGiven togglesA .zero ⟨.zero, .zero, 0, 0, false, .fps30_2X,
    false, true, []⟩ := by
  unfold SeenAsGiven
  decide +kernel

end LotusKit.Tas

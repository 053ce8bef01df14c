import LotusKit.Lib.RingBuffer
import LotusKit.Lib.Rounding
import Mathlib.Data.List.TakeDrop
import Mathlib.Data.List.DropRight
import Mathlib.Data.Rat.Cast.Order
import Mathlib.Algebra.BigOperators.Group.List.Basic

/-! The statistics of the last second: what each frame took, and the averages that are shown. -/

namespace LotusKit.Fps
open LotusKit.Lib

abbrev MAX_FPS : Nat := 30

/-- The counters, all of them zero before the first frame. -/
structure Stats where
  statDeltaTicks : Vector (BitVec 64) MAX_FPS
  statDeltaFrames60 : Vector (BitVec 8) MAX_FPS
  stat_i : Fin MAX_FPS
  prevTick : BitVec 64

/-- What `CalcFrame` writes to its arguments. -/
structure Frame where
  deltaTicks : BitVec 64
  deltaFrames60 : BitVec 8
  avgDeltaTicks : ℚ
  avgDeltaFrames60 : ℚ

/-- What a frame is measured by: the system tick, and `(u32)(mDeltaFrame * 2)`. -/
structure Sample where
  nowTick : BitVec 64
  deltaFrame60 : BitVec 32

/-- An integer as a `float`, which has 24 bits. -/
def toFloat (n : Nat) : ℚ := roundTo 24 n

namespace Stats

def initial : Stats := ⟨.replicate _ 0, .replicate _ 0, 0, 0⟩

def CalcFrame (s : Stats) (sample : Sample) : Stats × Frame :=
  let deltaTicks := sample.nowTick - s.prevTick
  let stat_i : Fin MAX_FPS := ⟨(s.stat_i + 1) % MAX_FPS, Nat.mod_lt _ (by decide)⟩
  let statDeltaTicks := s.statDeltaTicks.set stat_i deltaTicks
  let deltaFrames60 := sample.deltaFrame60.setWidth 8
  let statDeltaFrames60 := s.statDeltaFrames60.set stat_i deltaFrames60
  let sumDeltaTicks := statDeltaTicks.toList.foldl (· + ·) 0
  let sumDeltaFrames60 := statDeltaFrames60.toList.foldl (· + ·) 0
  (⟨statDeltaTicks, statDeltaFrames60, stat_i, sample.nowTick⟩,
    { deltaTicks, deltaFrames60
      avgDeltaTicks := toFloat (sumDeltaTicks.toNat / MAX_FPS)
      avgDeltaFrames60 := toFloat (sumDeltaFrames60.toNat / MAX_FPS) })

/-- After some frames. -/
def run (s : Stats) (samples : List Sample) : Stats := samples.foldl (fun s sample => (s.CalcFrame sample).1) s

def ticks (s : Stats) : RingBuffer (BitVec 64) := ⟨s.statDeltaTicks.toList, s.stat_i, by simp⟩

def frames (s : Stats) : RingBuffer (BitVec 8) := ⟨s.statDeltaFrames60.toList, s.stat_i, by simp⟩

end Stats

/-- The ticks from each sample to the next. -/
def deltas (prev : BitVec 64) : List Sample → List (BitVec 64)
  | [] => []
  | sample :: samples => (sample.nowTick - prev) :: deltas sample.nowTick samples

/-- The tick deltas of the last frames. -/
def lastTicks (samples : List Sample) : List Nat := ((deltas 0 samples).rtake MAX_FPS).map BitVec.toNat

def lastFrames (samples : List Sample) : List Nat := (samples.rtake MAX_FPS).map fun sample => sample.deltaFrame60.toNat

def mean (values : List Nat) : ℚ := values.sum / values.length

section Run
variable {s : Stats} {sample : Sample} {samples : List Sample}

theorem ticks_calcFrame : (s.CalcFrame sample).1.ticks = s.ticks.push (sample.nowTick - s.prevTick) := by
  simp only [Stats.ticks, Stats.CalcFrame, RingBuffer.push, Vector.toList_set, Vector.length_toList]

theorem frames_calcFrame : (s.CalcFrame sample).1.frames = s.frames.push (sample.deltaFrame60.setWidth 8) := by
  simp only [Stats.frames, Stats.CalcFrame, RingBuffer.push, Vector.toList_set, Vector.length_toList]

theorem ticks_run : (s.run samples).ticks = s.ticks.pushAll (deltas s.prevTick samples) := by
  induction samples generalizing s with
  | nil => rfl
  | cons sample samples ih =>
    rw [Stats.run, List.foldl_cons, ← Stats.run, ih, ticks_calcFrame]
    rfl

theorem frames_run : (s.run samples).frames = s.frames.pushAll (samples.map fun sample => sample.deltaFrame60.setWidth 8) := by
  induction samples generalizing s with
  | nil => rfl
  | cons sample samples ih =>
    rw [Stats.run, List.foldl_cons, ← Stats.run, ih, frames_calcFrame]
    rfl

theorem length_deltas (prev : BitVec 64) : (deltas prev samples).length = samples.length := by
  induction samples generalizing prev with
  | nil => rfl
  | cons sample samples ih => exact congrArg Nat.succ (ih sample.nowTick)

/-- Sums of machine integers wrap around. -/
theorem toNat_foldl_add {w : Nat} (values : List (BitVec w)) (start : BitVec w) :
    (values.foldl (· + ·) start).toNat = (start.toNat + (values.map BitVec.toNat).sum) % 2 ^ w := by
  induction values generalizing start with
  | nil => exact (Nat.mod_eq_of_lt start.isLt).symm
  | cons value values ih =>
    rw [List.foldl_cons, ih, BitVec.toNat_add, Nat.mod_add_mod, List.map_cons, List.sum_cons, Nat.add_assoc]

theorem toNat_sum {w : Nat} (values : List (BitVec w)) :
    (values.foldl (· + ·) 0).toNat = (values.map BitVec.toNat).sum % 2 ^ w := by
  have zero : (0 : BitVec w).toNat = 0 := BitVec.toNat_zero
  rw [toNat_foldl_add, zero, Nat.zero_add]

theorem sum_ticks (enough : MAX_FPS ≤ samples.length) :
    ((Stats.initial.run samples).statDeltaTicks.toList.foldl (· + ·) 0).toNat = (lastTicks samples).sum % 2 ^ 64 := by
  have slots : (Stats.initial.run samples).statDeltaTicks.toList = (Stats.initial.run samples).ticks.slots := rfl
  have recent : (Stats.initial.run samples).ticks.recent = (deltas 0 samples).rtake MAX_FPS := by
    rw [ticks_run, RingBuffer.recent_pushAll_of_le]
    · rfl
    · rwa [length_deltas]
  rw [slots, toNat_sum, lastTicks, ← recent]
  congr 1
  exact ((RingBuffer.perm_recent _).map BitVec.toNat).sum_eq.symm

theorem sum_frames (enough : MAX_FPS ≤ samples.length) (fits : ∀ sample ∈ samples, sample.deltaFrame60.toNat < 2 ^ 8) :
    ((Stats.initial.run samples).statDeltaFrames60.toList.foldl (· + ·) 0).toNat = (lastFrames samples).sum % 2 ^ 8 := by
  have slots : (Stats.initial.run samples).statDeltaFrames60.toList = (Stats.initial.run samples).frames.slots := rfl
  have recent : (Stats.initial.run samples).frames.recent =
      (samples.rtake MAX_FPS).map fun sample => sample.deltaFrame60.setWidth 8 := by
    rw [frames_run, RingBuffer.recent_pushAll_of_le]
    · rw [List.length_map, ← List.map_drop]
      rfl
    · rwa [List.length_map]
  have values : (Stats.initial.run samples).frames.recent.map BitVec.toNat = lastFrames samples := by
    rw [recent, List.map_map]
    apply List.map_congr_left
    intro sample inside
    exact (BitVec.toNat_setWidth _ _).trans (Nat.mod_eq_of_lt (fits sample (List.mem_of_mem_drop inside)))
  rw [slots, toNat_sum, ← values]
  congr 1
  exact ((RingBuffer.perm_recent _).map BitVec.toNat).sum_eq.symm

/-- An average is the mean when the sum does not wrap, and is divided without a rest by an integer
that a `float` can hold. -/
theorem toFloat_eq_mean_iff {values : List Nat} {w : Nat} (full : values.length = MAX_FPS) :
    toFloat (values.sum % 2 ^ w / MAX_FPS) = mean values ↔
      values.sum < 2 ^ w ∧ MAX_FPS ∣ values.sum ∧ Fits 24 (values.sum / MAX_FPS) := by
  rw [← roundTo_mean_iff (by decide) (by decide) (Nat.pow_pos (by decide)), toFloat, mean, full,
    eq_div_iff (by norm_num)]
  exact_mod_cast Iff.rfl

end Run

section Averages

/-- What the averages need: sums that do not wrap, without a rest, and ticks that a `float` can hold. -/
def Exact (ticks frames : List Nat) : Prop :=
  (ticks.sum < 2 ^ 64 ∧ MAX_FPS ∣ ticks.sum ∧ Fits 24 (ticks.sum / MAX_FPS)) ∧
    frames.sum < 2 ^ 8 ∧ MAX_FPS ∣ frames.sum

/-- Once 30 frames are measured, the averages are the means just when nothing is lost. -/
theorem averages_exact_iff (samples : List Sample) (sample : Sample) (enough : MAX_FPS ≤ (samples ++ [sample]).length)
    (fits : ∀ s ∈ samples ++ [sample], s.deltaFrame60.toNat < 2 ^ 8) :
    (((Stats.initial.run samples).CalcFrame sample).2.avgDeltaTicks = mean (lastTicks (samples ++ [sample])) ∧
      ((Stats.initial.run samples).CalcFrame sample).2.avgDeltaFrames60 = mean (lastFrames (samples ++ [sample]))) ↔
      Exact (lastTicks (samples ++ [sample])) (lastFrames (samples ++ [sample])) := by
  have after : ((Stats.initial.run samples).CalcFrame sample).1 = Stats.initial.run (samples ++ [sample]) := by
    rw [Stats.run, Stats.run, List.foldl_append]
    rfl
  have ticks : ((Stats.initial.run samples).CalcFrame sample).2.avgDeltaTicks =
      toFloat ((lastTicks (samples ++ [sample])).sum % 2 ^ 64 / MAX_FPS) := by
    rw [← sum_ticks enough, ← after]
    rfl
  have frames : ((Stats.initial.run samples).CalcFrame sample).2.avgDeltaFrames60 =
      toFloat ((lastFrames (samples ++ [sample])).sum % 2 ^ 8 / MAX_FPS) := by
    rw [← sum_frames enough fits, ← after]
    rfl
  have full : (lastTicks (samples ++ [sample])).length = MAX_FPS ∧ (lastFrames (samples ++ [sample])).length = MAX_FPS := by
    rw [lastTicks, lastFrames, List.length_map, List.length_map, List.rtake, List.rtake, List.length_drop, List.length_drop,
      length_deltas]
    omega
  have small : (lastFrames (samples ++ [sample])).sum < 2 ^ 8 → Fits 24 ((lastFrames (samples ++ [sample])).sum / MAX_FPS) :=
    fun below => ⟨_, 0, (Nat.div_le_self _ _).trans_lt (below.trans (by decide)), (Nat.mul_one _).symm⟩
  rw [ticks, frames, toFloat_eq_mean_iff full.1, toFloat_eq_mean_iff full.2, Exact]
  constructor
  · rintro ⟨first, below, divides, -⟩
    exact ⟨first, below, divides⟩
  · rintro ⟨first, below, divides⟩
    exact ⟨first, below, divides, small below⟩

/-- Frames of `640000` ticks each. -/
def steady (n : Nat) (deltaFrame60 : BitVec 32) : Sample := ⟨BitVec.ofNat 64 (640000 * (n + 1)), deltaFrame60⟩

def steadySamples : List Sample := (List.range 29).map fun n => steady n 2

theorem steady_averages :
    ((Stats.initial.run steadySamples).CalcFrame (steady 29 2)).2.avgDeltaTicks =
        mean (lastTicks (steadySamples ++ [steady 29 2])) ∧
      ((Stats.initial.run steadySamples).CalcFrame (steady 29 2)).2.avgDeltaFrames60 =
        mean (lastFrames (steadySamples ++ [steady 29 2])) := by
  apply (averages_exact_iff steadySamples (steady 29 2) (by decide) (by decide +kernel)).mpr
  refine ⟨⟨by decide +kernel, by decide +kernel, 640000, 0, by decide, by decide +kernel⟩, by decide +kernel, by decide +kernel⟩

/-- One slow frame among 30 is not seen in the average. -/
theorem slow_frame_truncated : ¬ ∀ samples sample, MAX_FPS ≤ (samples ++ [sample]).length →
    (∀ s ∈ samples ++ [sample], s.deltaFrame60.toNat < 2 ^ 8) →
    ((Stats.initial.run samples).CalcFrame sample).2.avgDeltaTicks = mean (lastTicks (samples ++ [sample])) ∧
      ((Stats.initial.run samples).CalcFrame sample).2.avgDeltaFrames60 = mean (lastFrames (samples ++ [sample])) := by
  intro all
  have slow := (all steadySamples (steady 29 3) (by decide) (by decide +kernel)).2
  revert slow
  decide +kernel

end Averages

end LotusKit.Fps

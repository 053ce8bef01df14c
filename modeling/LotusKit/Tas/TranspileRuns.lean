import LotusKit.Tas.NxSource

/-! What the emitted calls make of a source. The counter is raised before an input is
compared with the accumulated one, so each call but the last one counts a frame too many. -/

namespace LotusKit.Tas
open LotusKit.Schedule LotusKit.Lib.RunLength LotusKit.Lib.Repeat LotusKit.Lib.Scan

/-- The frames of the emitted calls, each with the duration as it is printed. -/
def played (calls : List (PlaybackInput × Nat)) : List PlaybackInput :=
  expand (calls.map fun run => (run.1, (asS32 run.2).toNat))

namespace NxSource

/-- Frame for frame, the calls are the lines of the source. -/
structure Preserves (source : NxSource) (calls : List (PlaybackInput × Nat)) : Prop where
  played : played calls = source.inputs
  duration : (calls.map fun run => asS32 run.2).sum = source.lines.length

/-- One input all along, in fewer lines than an `int` can count, and a byte to spare. -/
structure Uniform (source : NxSource) (dstMax : Nat) (input : PlaybackInput) : Prop where
  same : ∀ x ∈ source.inputs, x = input
  short : source.lines.length < 2 ^ 31
  room : source.lines ≠ [] → (entrypoint ++ entrypoint_open).length +
    (callText (input, source.lines.length)).length < transpileLimit dstMax

end NxSource

namespace Transpiler
variable {s t : Transpiler} {acc : Accumulator PlaybackInput} {limit : Nat}

/-- A run as it is put out when another input follows. -/
def closed (run : PlaybackInput × Nat) : PlaybackInput × Nat := (run.1, u32 (run.2 + 1))

/-- Every run that is complete was put out one frame too long, or some run was not put out
at all. -/
structure Tracks (acc : Accumulator PlaybackInput) (s : Transpiler) : Prop where
  held : s.accDuration ≠ 0 → s.acc = acc.held
  few : s.emitted.length ≤ acc.complete.length
  all : s.emitted.length = acc.complete.length →
    s.emitted = acc.complete.map closed ∧ s.accDuration = u32 acc.count
  dstn : s.emitted = [] → s.dstn = (entrypoint ++ entrypoint_open).length

/-- The calls in the end: too few, or all. -/
def Outcome (limit : Nat) (acc : Accumulator PlaybackInput) (calls : List (PlaybackInput × Nat)) : Prop :=
  calls.length < acc.runs.length ∨
    calls = acc.complete.map closed ++ [(acc.held, u32 acc.count)] ∧
      (acc.complete = [] → (entrypoint ++ entrypoint_open).length +
        (callText (acc.held, u32 acc.count)).length < limit)

theorem length_runs (acc : Accumulator PlaybackInput) : acc.runs.length = acc.complete.length + 1 := by
  rw [Accumulator.runs, List.length_append, List.length_singleton]

theorem Tracks.outcome (tracks : Tracks acc s) : Outcome limit acc (s.calls limit) := by
  have few := tracks.few
  have runs := length_runs acc
  unfold calls
  split
  next counted =>
    split
    next => exact .inl (by omega)
    next room =>
      by_cases whole : s.emitted.length = acc.complete.length
      · obtain ⟨emitted, accDuration⟩ := tracks.all whole
        refine .inr ⟨?_, fun none_ => ?_⟩
        · rw [emitted, accDuration, tracks.held (by omega)]
        · have first : s.emitted = [] := by rw [emitted, none_, List.map_nil]
          rw [← tracks.dstn first, ← accDuration, ← tracks.held (by omega)]
          omega
      · refine .inl ?_
        rw [List.length_append, List.length_singleton]
        omega
  next => exact .inl (by omega)

/-- When the loop is left early, nothing is put out any more. -/
theorem calls_of_full (full : limit ≤ s.dstn) : s.calls limit = s.emitted := by
  unfold calls
  split
  · exact if_pos (by omega)
  · rfl

theorem u32_succ (n : Nat) : u32 (u32 n + 1) = u32 (n + 1) := by
  unfold u32
  omega

/-- One more line: the loop goes on, or is left with too few calls. -/
theorem Tracks.accumulate (tracks : Tracks acc s) : ∃ t, t.src = s.src ∧
    ((s.accumulate limit = .inl t ∧ Tracks (acc.push s.line) t) ∨
      (s.accumulate limit = .inr t ∧ (t.calls limit).length < (acc.push s.line).runs.length)) := by
  have few := tracks.few
  have loopOn_ (t : Transpiler) (src : t.src = s.src) (next : Tracks (acc.push s.line) t) :
      ∃ u, u.src = s.src ∧ ((loopOn limit t = .inl u ∧ Tracks (acc.push s.line) u) ∨
        (loopOn limit t = .inr u ∧ (u.calls limit).length < (acc.push s.line).runs.length)) := by
    refine ⟨t, src, ?_⟩
    unfold loopOn
    split
    next => exact .inl ⟨rfl, next⟩
    next full =>
      refine .inr ⟨rfl, ?_⟩
      have few' := next.few
      rw [calls_of_full (by omega), length_runs]
      omega
  simp only [Transpiler.accumulate]
  split
  next zero =>
    apply loopOn_ { s with accDuration := u32 (s.accDuration + 1), acc := s.line } rfl
    by_cases same : s.line = acc.held
    · have push : acc.push s.line = ⟨acc.complete, acc.held, acc.count + 1⟩ := if_pos same
      rw [push]
      refine ⟨fun _ => same, few, fun whole => ?_, tracks.dstn⟩
      obtain ⟨emitted, accDuration⟩ := tracks.all whole
      refine ⟨emitted, ?_⟩
      simp only
      rw [accDuration, u32_succ]
    · have push : acc.push s.line = ⟨acc.complete ++ [(acc.held, acc.count)], s.line, 1⟩ := if_neg same
      rw [push]
      refine ⟨fun _ => rfl, ?_, fun whole => ?_, tracks.dstn⟩
      · simp only [List.length_append, List.length_singleton]
        omega
      · simp only [List.length_append, List.length_singleton] at whole
        omega
  next counted =>
    have held := tracks.held counted
    split
    next differs =>
      have push : acc.push s.line = ⟨acc.complete ++ [(acc.held, acc.count)], s.line, 1⟩ :=
        if_neg (held ▸ Ne.symm differs)
      split
      next full =>
        refine ⟨{ s with
          accDuration := u32 (s.accDuration + 1)
          dstn := s.dstn + (callText (s.acc, u32 (s.accDuration + 1))).length }, rfl, .inr ⟨rfl, ?_⟩⟩
        rw [calls_of_full full, length_runs, push]
        simp only [List.length_append, List.length_singleton]
        omega
      next room =>
        apply loopOn_
          { s with
            dstn := s.dstn + (callText (s.acc, u32 (s.accDuration + 1))).length
            emitted := s.emitted ++ [(s.acc, u32 (s.accDuration + 1))]
            accDuration := 1
            acc := s.line } rfl
        rw [push]
        refine ⟨fun _ => rfl, ?_, fun whole => ?_, fun none_ => ?_⟩
        · simp only [List.length_append, List.length_singleton]
          omega
        · simp only [List.length_append, List.length_singleton] at whole
          obtain ⟨emitted, accDuration⟩ := tracks.all (by omega)
          refine ⟨?_, rfl⟩
          simp only [List.map_append, List.map_singleton]
          rw [emitted, accDuration, held, u32_succ]
          rfl
        · exact absurd none_ (List.append_ne_nil_of_right_ne_nil _ (List.cons_ne_nil _ _))
    next same =>
      have equal : s.line = acc.held := (not_not.mp same).symm.trans held
      have push : acc.push s.line = ⟨acc.complete, acc.held, acc.count + 1⟩ := if_pos equal
      apply loopOn_ { s with accDuration := u32 (s.accDuration + 1) } rfl
      rw [push]
      refine ⟨fun _ => held, few, fun whole => ?_, tracks.dstn⟩
      obtain ⟨emitted, accDuration⟩ := tracks.all whole
      refine ⟨emitted, ?_⟩
      simp only
      rw [accDuration, u32_succ]

theorem Tracks.congr (tracks : Tracks acc s) (accSame : t.acc = s.acc)
    (accDuration : t.accDuration = s.accDuration) (emitted : t.emitted = s.emitted)
    (dstn : t.dstn = s.dstn) : Tracks acc t := by
  refine ⟨?_, ?_, ?_, ?_⟩
  · rw [accSame, accDuration]
    exact tracks.held
  · rw [emitted]
    exact tracks.few
  · rw [emitted, accDuration]
    exact tracks.all
  · rw [emitted, dstn]
    exact tracks.dstn

/-- The source goes on with these lines. -/
structure Ahead (lines : List NxLine) (s : Transpiler) : Prop where
  src : ∃ ending, (∀ c ∈ ending, isSkipped c = true) ∧ s.src = ending ++ lines.flatMap NxLine.text
  ended : ∀ l ∈ lines.dropLast, l.ending ≠ []

theorem body_nil (ahead : Ahead [] s) : s.body limit = .inr { s with src := [] } := by
  obtain ⟨⟨ending, skipped, src⟩, -⟩ := ahead
  have empty : s.src.dropWhile isSkipped = [] := by
    rw [src, List.flatMap_nil]
    exact ends_nil.dropWhile skipped
  simp only [body, empty, if_true]

/-- The next line is parsed, and what it says is accumulated. -/
theorem body_cons {l : NxLine} {lines : List NxLine} (ahead : Ahead (l :: lines) s) :
    ∃ src skipAhead, s.body limit = ({ s with
        src := src
        line := l.input
        skipAheadTmpForScanf := skipAhead } : Transpiler).accumulate limit ∧
      ∀ t : Transpiler, t.src = src → Ahead lines t := by
  obtain ⟨⟨ending, skipped, src⟩, ended⟩ := ahead
  have dropped : s.src.dropWhile isSkipped = l.body ++ lines.flatMap NxLine.text := by
    rw [src, List.flatMap_cons]
    exact NxLine.dropWhile_text ending skipped
  have separate : l.ending ≠ [] ∨ lines.flatMap NxLine.text = [] := by
    cases lines with
    | nil => exact .inr rfl
    | cons next lines => exact .inl (ended l List.mem_cons_self)
  obtain ⟨skipAhead, parsed⟩ := NxLine.parseLine_body
    (show ({ s with src := l.body ++ lines.flatMap NxLine.text } : Transpiler).src = _ from rfl) separate
  refine ⟨l.ending ++ lines.flatMap NxLine.text, skipAhead, ?_, fun t rest =>
    ⟨⟨l.ending, fun c member => (l.ends c member).1, rest⟩, fun other member => ?_⟩⟩
  · simp only [body, dropped]
    rw [if_neg NxLine.body_ne_nil, parsed]
  · apply ended
    cases lines with
    | nil => exact absurd member List.not_mem_nil
    | cons next lines => exact List.mem_cons_of_mem l member

/-- The whole loop, from some point of the source on. -/
theorem Tracks.leaves {lines : List NxLine} (tracks : Tracks acc s) (ahead : Ahead lines s) :
    ∃ t, Leaves (body limit) s t ∧
      Outcome limit (acc.pushAll (lines.map NxLine.input)) (t.calls limit) := by
  induction lines generalizing s acc with
  | nil => exact ⟨_, .now (body_nil ahead), tracks.outcome⟩
  | cons l lines ih =>
    obtain ⟨src, skipAhead, goesOn, later⟩ := @body_cons s limit _ _ ahead
    have parsed : Tracks acc ({ s with
        src := src
        line := l.input
        skipAheadTmpForScanf := skipAhead } : Transpiler) := tracks.congr rfl rfl rfl rfl
    obtain ⟨t, rest, step⟩ := @Tracks.accumulate _ _ limit parsed
    rcases step with ⟨next, tracks'⟩ | ⟨left, few⟩
    · obtain ⟨u, leaves, outcome⟩ := ih tracks' (later t rest)
      exact ⟨u, .later (goesOn.trans next) leaves, outcome⟩
    · refine ⟨t, .now (goesOn.trans left), .inl ?_⟩
      have more := ((acc.push l.input).complete_pushAll (lines.map NxLine.input)).length_le
      rw [length_runs] at few ⊢
      exact Nat.lt_of_lt_of_le few (Nat.succ_le_succ more)

/-- As long as the input stays the same, nothing is put out. -/
theorem leaves_same {input : PlaybackInput} {lines : List NxLine} (ahead : Ahead lines s)
    (same : ∀ l ∈ lines, l.input = input) (held : s.accDuration ≠ 0 → s.acc = input)
    (short : s.accDuration + lines.length < 2 ^ 32) (room : s.dstn < limit) :
    ∃ t, Leaves (body limit) s t ∧ t.accDuration = s.accDuration + lines.length ∧
      (t.accDuration ≠ 0 → t.acc = input) ∧ t.emitted = s.emitted ∧ t.dstn = s.dstn := by
  induction lines generalizing s with
  | nil => exact ⟨_, .now (body_nil ahead), rfl, held, rfl, rfl⟩
  | cons l lines ih =>
    obtain ⟨src, skipAhead, goesOn, later⟩ := @body_cons s limit _ _ ahead
    have line := same l List.mem_cons_self
    rw [List.length_cons] at short
    have counted : u32 (s.accDuration + 1) = s.accDuration + 1 := u32_of_lt (by omega)
    have next : s.body limit = .inl { s with
        src := src
        line := input
        skipAheadTmpForScanf := skipAhead
        accDuration := s.accDuration + 1
        acc := input } := by
      rw [goesOn, line]
      simp only [accumulate, loopOn, counted, if_pos room]
      split
      next => rfl
      next some_ => rw [if_neg (not_not_intro (held some_)), held some_]
    obtain ⟨t, leaves, accDuration, held', emitted, dstn⟩ := @ih { s with
        src := src
        line := input
        skipAheadTmpForScanf := skipAhead
        accDuration := s.accDuration + 1
        acc := input } (later _ rfl) (fun other member => same other (List.mem_cons_of_mem l member))
      (fun _ => rfl) (by simp only; omega) room
    refine ⟨t, .later next leaves, ?_, held', emitted, dstn⟩
    rw [accDuration, List.length_cons]
    simp only
    omega

end Transpiler

section Calls
variable {limit : Nat} {acc : Accumulator PlaybackInput} {calls : List (PlaybackInput × Nat)}

theorem toNat_asS32_of_lt {n : Nat} (small : n < 2 ^ 31) : (asS32 n).toNat = n := by
  rw [asS32, if_pos small]
  exact Int.toNat_natCast n

theorem toNat_asS32_lt (n : Nat) (word : n < 2 ^ 32) : (asS32 n).toNat < 2 ^ 31 := by
  unfold asS32
  split
  next small =>
    rw [Int.toNat_natCast]
    exact small
  next => omega

/-- One frame too many is never the right number of frames. -/
theorem toNat_asS32_succ_ne (n : Nat) : (asS32 (u32 (n + 1))).toNat ≠ n := by
  intro same
  have below := toNat_asS32_lt _ (u32_lt (n + 1))
  rw [same] at below
  rw [u32_of_lt (by omega)] at same
  unfold asS32 at same
  split at same
  next => omega
  next => omega

/-- Calls that play what was read are the one call for a single run. -/
theorem outcome_played (outcome : Transpiler.Outcome limit acc calls) (proper : Proper acc.runs)
    (same : played calls = acc.expand) : acc.complete = [] ∧ acc.count < 2 ^ 31 ∧
      (entrypoint ++ entrypoint_open).length + (callText (acc.held, acc.count)).length < limit := by
  have few : calls.length ≤ acc.runs.length := by
    rcases outcome with less | ⟨all, -⟩
    · exact Nat.le_of_lt less
    · rw [all, Transpiler.length_runs]
      simp only [List.length_append, List.length_map, List.length_singleton, Nat.le_refl]
  have printed := proper.eq_of_expand_eq (by rwa [List.length_map])
    (same.trans acc.expand_runs.symm)
  rcases outcome with less | ⟨all, room⟩
  · have lengths := congrArg List.length printed
    rw [List.length_map] at lengths
    omega
  · rw [all, Accumulator.runs, List.map_append, List.map_singleton, List.map_map] at printed
    have parts := List.append_inj' printed rfl
    have none_ : acc.complete = [] := by
      cases complete : acc.complete with
      | nil => rfl
      | cons run rest =>
        have first := parts.1
        rw [complete, List.map_cons] at first
        have count := congrArg Prod.snd (List.cons.inj first).1
        exact absurd count (toNat_asS32_succ_ne run.2)
    have count : (asS32 (u32 acc.count)).toNat = acc.count :=
      congrArg Prod.snd (List.cons.inj parts.2).1
    have short : acc.count < 2 ^ 31 := by
      have bound := toNat_asS32_lt _ (u32_lt acc.count)
      omega
    have limit_ := room none_
    rw [u32_of_lt (by omega)] at limit_
    exact ⟨none_, short, limit_⟩

end Calls

namespace NxSource
variable {source : NxSource} {dstMax : Nat} {calls : List (PlaybackInput × Nat)}

theorem ahead_start : Transpiler.Ahead source.lines (.start source.text) :=
  ⟨⟨[], nofun, rfl⟩, source.ended⟩

theorem length_inputs : source.inputs.length = source.lines.length := List.length_map _

/-- The transpiler returns, with calls that the accumulator accounts for. -/
theorem transpiles_outcome (source : NxSource) (dstMax : Nat) (first : PlaybackInput) :
    ∃ calls, Transpiles source.text dstMax calls ∧ Transpiler.Outcome (transpileLimit dstMax)
      (Accumulator.pushAll source.inputs ⟨[], first, 0⟩) calls := by
  have tracks : Transpiler.Tracks ⟨[], first, 0⟩ (.start source.text) :=
    ⟨fun counted => absurd rfl counted, Nat.le_refl _, fun _ => ⟨rfl, rfl⟩, fun _ => rfl⟩
  obtain ⟨t, leaves, outcome⟩ := tracks.leaves ahead_start
  exact ⟨_, ⟨t, leaves, rfl⟩, outcome⟩

theorem unique_of_transpiles {src : List Char} {more : List (PlaybackInput × Nat)}
    (first : Transpiles src dstMax calls) (second : Transpiles src dstMax more) : calls = more := by
  obtain ⟨s, leaves, rfl⟩ := first
  obtain ⟨t, leaves', rfl⟩ := second
  rw [leaves.unique leaves']

theorem uniform_of_preserves (transpiles : Transpiles source.text dstMax calls)
    (preserves : source.Preserves calls) : ∃ input, source.Uniform dstMax input := by
  cases inputs : source.inputs with
  | nil =>
    have none_ : source.lines = [] := by
      have length := @length_inputs source
      rw [inputs] at length
      exact List.eq_nil_of_length_eq_zero length.symm
    refine ⟨.zero, fun x member => ?_, by rw [none_]; decide, fun some_ => absurd none_ some_⟩
    rw [inputs] at member
    exact absurd member List.not_mem_nil
  | cons first rest =>
    obtain ⟨calls', transpiles', outcome⟩ := transpiles_outcome source dstMax first
    obtain rfl := unique_of_transpiles transpiles transpiles'
    have proper : Proper (Accumulator.pushAll source.inputs ⟨[], first, 0⟩).runs := by
      rw [inputs]
      have one : Accumulator.push first ⟨[], first, 0⟩ = ⟨[], first, 1⟩ := if_pos rfl
      have begun : Proper (Accumulator.push first ⟨[], first, 0⟩).runs := by
        rw [one]
        refine ⟨fun run member => ?_, List.isChain_singleton _⟩
        rw [List.mem_singleton.mp member]
        exact Nat.one_pos
      exact Accumulator.proper_pushAll begun rest
    have expand := Accumulator.expand_pushAll source.inputs ⟨[], first, 0⟩
    have nothing : Accumulator.expand (⟨[], first, 0⟩ : Accumulator PlaybackInput) = [] := rfl
    rw [nothing, List.nil_append] at expand
    obtain ⟨complete, short, room⟩ := outcome_played outcome proper (preserves.played.trans expand.symm)
    rw [Accumulator.expand, complete, expand_nil, List.nil_append] at expand
    have count := congrArg List.length expand
    rw [List.length_replicate, length_inputs] at count
    refine ⟨_, fun x member => ?_, by rwa [← count], fun _ => by rwa [← count]⟩
    rw [← expand] at member
    exact (List.mem_replicate.mp member).2

theorem preserves_of_uniform {input : PlaybackInput} (transpiles : Transpiles source.text dstMax calls)
    (uniform : source.Uniform dstMax input) : source.Preserves calls := by
  obtain ⟨same, short, room⟩ := uniform
  have inputs : source.inputs = List.replicate source.lines.length input := by
    rw [← length_inputs]
    exact List.eq_replicate_of_mem same
  by_cases none_ : source.lines = []
  · have leaves : Leaves (Transpiler.body (transpileLimit dstMax)) (.start source.text) _ :=
      .now (Transpiler.body_nil (none_ ▸ ahead_start))
    obtain rfl := unique_of_transpiles transpiles ⟨_, leaves, rfl⟩
    refine ⟨?_, ?_⟩
    · rw [inputs, none_]
      rfl
    · rw [none_]
      rfl
  · have fits := room none_
    have some_ : source.lines.length ≠ 0 := fun zero => none_ (List.eq_nil_of_length_eq_zero zero)
    have each (l : NxLine) (member : l ∈ source.lines) : l.input = input :=
      same _ (List.mem_map_of_mem member)
    obtain ⟨t, leaves, accDuration, held, emitted, dstn⟩ :=
      @Transpiler.leaves_same (.start source.text) (transpileLimit dstMax) input _ ahead_start each
        (fun counted => absurd rfl counted) (by simp only [Transpiler.start]; omega)
        (by simp only [Transpiler.start]; omega)
    have counted : t.accDuration = source.lines.length := accDuration.trans (Nat.zero_add _)
    have result : t.calls (transpileLimit dstMax) = [(input, source.lines.length)] := by
      rw [Transpiler.calls, counted, held (by omega), emitted, dstn, if_pos (by omega)]
      exact if_neg (Nat.not_le_of_lt fits)
    obtain rfl := unique_of_transpiles transpiles ⟨t, leaves, rfl⟩
    rw [result]
    refine ⟨?_, ?_⟩
    · rw [inputs, played, List.map_singleton, toNat_asS32_of_lt short, expand_cons, expand_nil,
        List.append_nil]
    · rw [List.map_singleton, List.sum_singleton, asS32, if_pos short]

/-- The transpiler returns with one list of calls, and that preserves the source exactly
when it is one input all along. -/
theorem transpiled_iff (source : NxSource) (dstMax : Nat) :
    ∃ calls, (∀ more, Transpiles source.text dstMax more ↔ more = calls) ∧
      (source.Preserves calls ↔ ∃ input, source.Uniform dstMax input) := by
  obtain ⟨calls, transpiles, -⟩ := transpiles_outcome source dstMax .zero
  refine ⟨calls, fun more => ⟨fun other => unique_of_transpiles other transpiles, ?_⟩,
    uniform_of_preserves transpiles, ?_⟩
  · rintro rfl
    exact transpiles
  · rintro ⟨input, uniform⟩
    exact preserves_of_uniform transpiles uniform

def space : Gap := ⟨[' '], List.cons_ne_nil _ _, List.forall_mem_singleton.mpr rfl⟩

/-- A line as the recorder writes it. -/
def line (label : List Char) (keys : List NxTasButton)
    (labelled : label ≠ [] ∧ ∀ c ∈ label, c.isDigit = true) : NxLine where
  label := label
  keys := keys
  lStick := ⟨0, 0⟩
  rStick := ⟨0, 0⟩
  gaps := (space, space, space)
  ending := ['\n']
  labelled := labelled
  inRange := by decide
  ends := List.forall_mem_singleton.mpr ⟨rfl, rfl⟩

/-- A is pressed for one frame. -/
def tap : NxSource where
  lines := [line ['1'] [.A] ⟨List.cons_ne_nil _ _, List.forall_mem_singleton.mpr rfl⟩,
    line ['2'] [] ⟨List.cons_ne_nil _ _, List.forall_mem_singleton.mpr rfl⟩]
  ended := by decide

theorem tap_not_preserves : ∃ calls, Transpiles tap.text 0x1000 calls ∧ ¬tap.Preserves calls := by
  obtain ⟨calls, transpiles, -⟩ := transpiles_outcome tap 0x1000 .zero
  refine ⟨calls, transpiles, fun preserves => ?_⟩
  obtain ⟨input, uniform⟩ := uniform_of_preserves transpiles preserves
  have first := uniform.same ⟨buttonsValue [.A], ⟨0, 0⟩, ⟨0, 0⟩⟩ (by decide)
  have second := uniform.same ⟨buttonsValue [], ⟨0, 0⟩, ⟨0, 0⟩⟩ (by decide)
  exact absurd (first.trans second.symm) (by decide)

end NxSource

end LotusKit.Tas

import LotusKit.Lib.Memory
import LotusKit.Tas.TranspileRuns

/-! What the transpiler writes into `dst`. The lines that fit are copied one behind the other and
the function is closed behind them, but the last terminator goes to where `entrypoint` would end. -/

namespace LotusKit.Tas
open LotusKit.Schedule LotusKit.Lib.RunLength LotusKit.Lib.Repeat LotusKit.Lib.Scan LotusKit.Lib.Memory

section Writes

def nul : Char := '\x00'

def strcpy (dst : Nat) (text : List Char) : Block Char := ⟨dst, text ++ [nul]⟩

/-- One text behind the other: `dst` goes ahead by the length of each. -/
def strcpyAll : Nat → List (List Char) → List (Block Char)
  | _, [] => []
  | dst, text :: texts => strcpy dst text :: strcpyAll (dst + text.length) texts

/-- The start of the function, and the lines put out. -/
def opened (calls : List (PlaybackInput × Nat)) : List Char :=
  entrypoint ++ entrypoint_open ++ calls.flatMap callText

/-- All that is written, in order: `dst += strlen(entrypoint)` comes before the last terminator. -/
def dstWrites (calls : List (PlaybackInput × Nat)) : List (Block Char) :=
  strcpyAll 0 (entrypoint :: entrypoint_open :: calls.map callText) ++
    [strcpy (opened calls).length entrypoint_close, ⟨(opened calls).length + entrypoint.length, [nul]⟩]

variable {dst : Nat} {texts : List (List Char)} {mem : Nat → Char}

theorem covers_strcpyAll {i : Nat} (covers : ∃ b ∈ strcpyAll dst texts, b.Covers i) :
    dst ≤ i ∧ i ≤ dst + texts.flatten.length := by
  obtain ⟨b, member, covers⟩ := covers
  induction texts generalizing dst with
  | nil => exact absurd member List.not_mem_nil
  | cons text texts ih =>
    rw [List.flatten_cons, List.length_append]
    rcases List.mem_cons.mp member with rfl | later
    · simp only [strcpy, Block.Covers, Block.end_, List.length_append, List.length_singleton] at covers
      omega
    · have bounds := ih later
      omega

/-- Texts copied one behind the other stand there as one text. -/
theorem holds_strcpyAll (texts : List (List Char)) (dst : Nat) (mem : Nat → Char) :
    Holds (storeAll (strcpyAll dst texts) mem) ⟨dst, texts.flatten⟩ := by
  induction texts generalizing dst mem with
  | nil => rfl
  | cons text texts ih =>
    apply Holds.append
    · have placed : Holds ((strcpy dst text).store mem) ⟨dst, text⟩ := (holds_store (strcpy dst text) mem).front
      apply placed.storeAll
      intro b member i covers inText
      have bounds := covers_strcpyAll ⟨b, member, covers⟩
      simp only [Block.Covers, Block.end_] at inText
      omega
    · exact ih (dst + text.length) _

theorem flatten_texts (calls : List (PlaybackInput × Nat)) :
    (entrypoint :: entrypoint_open :: calls.map callText).flatten = opened calls := by
  rw [opened, List.flatten_cons, List.flatten_cons, List.append_assoc, List.flatMap_def]

/-- In the end the whole function stands in `dst`. -/
theorem holds_dstWrites (calls : List (PlaybackInput × Nat)) (mem : Nat → Char) :
    Holds (storeAll (dstWrites calls) mem) ⟨0, transpiledText calls ++ [nul]⟩ := by
  have front := holds_strcpyAll (entrypoint :: entrypoint_open :: calls.map callText) 0 mem
  rw [flatten_texts] at front
  have whole : transpiledText calls ++ [nul] = opened calls ++ (entrypoint_close ++ [nul]) := by
    rw [transpiledText, opened, List.append_assoc]
  rw [whole, dstWrites, storeAll_append]
  apply Holds.append
  · apply front.storeAll
    intro b member i covers inText
    simp only [Block.Covers, Block.end_, Nat.zero_add] at inText
    rcases List.mem_cons.mp member with rfl | last
    · have above : (opened calls).length ≤ i := covers.1
      omega
    · obtain rfl := List.mem_singleton.mp last
      have above : (opened calls).length + entrypoint.length ≤ i := covers.1
      omega
  · rw [Nat.zero_add]
    have placed := holds_store (strcpy (opened calls).length entrypoint_close)
      (storeAll (strcpyAll 0 (entrypoint :: entrypoint_open :: calls.map callText)) mem)
    refine @Holds.storeAll _ _ _ placed [⟨(opened calls).length + entrypoint.length, [nul]⟩] ?_
    intro b member i covers inText
    obtain rfl := List.mem_singleton.mp member
    have above : (opened calls).length + entrypoint.length ≤ i := covers.1
    have below : i < (opened calls).length + (entrypoint_close ++ [nul]).length := inText.2
    have sizes : (entrypoint_close ++ [nul]).length = 3 ∧ entrypoint.length = 11 := by decide
    omega

/-- What is written is inside exactly when the last terminator is. -/
theorem dstWrites_inside_iff {calls : List (PlaybackInput × Nat)} {dstMax : Nat} :
    (∀ b ∈ dstWrites calls, ∀ i, b.Covers i → i < dstMax) ↔ (opened calls).length + 11 < dstMax := by
  have sizes : (entrypoint_close ++ [nul]).length = 3 ∧ entrypoint.length = 11 := by decide
  constructor
  · intro inside
    refine inside ⟨(opened calls).length + entrypoint.length, [nul]⟩ ?_ _ ⟨?_, ?_⟩
    · exact List.mem_append_right _ (List.mem_cons_of_mem _ List.mem_cons_self)
    · exact Nat.le_of_eq (by rw [sizes.2])
    · rw [Block.end_, sizes.2]
      exact Nat.lt_succ_self _
  · intro room b member i covers
    rcases List.mem_append.mp member with copied | closing
    · have bounds := covers_strcpyAll ⟨b, copied, covers⟩
      rw [flatten_texts] at bounds
      omega
    · rcases List.mem_cons.mp closing with rfl | last
      · have below : i < (opened calls).length + (entrypoint_close ++ [nul]).length := covers.2
        omega
      · obtain rfl := List.mem_singleton.mp last
        have below : i < (opened calls).length + entrypoint.length + 1 := covers.2
        omega

end Writes

/-- As many of the lines as there is room for, one behind the other. -/
structure Filled (limit : Nat) (all calls : List (PlaybackInput × Nat)) : Prop where
  lines : calls <+: all
  room : (opened calls).length < limit
  full : ∀ next, calls ++ [next] <+: all → limit ≤ (opened (calls ++ [next])).length

section Filled
variable {limit : Nat} {all calls lines : List (PlaybackInput × Nat)} {run : PlaybackInput × Nat}

theorem opened_append (calls lines : List (PlaybackInput × Nat)) :
    opened (calls ++ lines) = opened calls ++ lines.flatMap callText := by
  rw [opened, opened, List.flatMap_append, List.append_assoc _ (calls.flatMap callText)]

theorem length_opened_concat (calls : List (PlaybackInput × Nat)) (run : PlaybackInput × Nat) :
    (opened (calls ++ [run])).length = (opened calls).length + (callText run).length := by
  rw [opened_append, List.length_append, List.flatMap_singleton]

/-- A line is never short enough for two to end close to one another. -/
theorem le_length_callText (run : PlaybackInput × Nat) : 9 ≤ (callText run).length := by
  have ends : "input(".toList.length = 6 ∧ ");\n".toList.length = 3 := by decide
  rw [callText, List.length_take]
  simp only [List.length_append, ends]
  omega

/-- Of two stretches of lines from the start on, a longer one takes at least one line more. -/
theorem length_opened_lt (calls_ : calls <+: all) (lines_ : lines <+: all) (shorter : calls.length < lines.length) :
    ∃ next, calls ++ [next] <+: all ∧ (opened (calls ++ [next])).length ≤ (opened lines).length := by
  obtain ⟨rest, rfl⟩ := List.prefix_of_prefix_length_le calls_ lines_ (Nat.le_of_lt shorter)
  cases rest with
  | nil => exact absurd shorter (by rw [List.append_nil]; exact Nat.lt_irrefl _)
  | cons next rest =>
    refine ⟨next, List.IsPrefix.trans ⟨rest, by rw [List.append_assoc]; rfl⟩ lines_, ?_⟩
    have split_ : calls ++ next :: rest = calls ++ [next] ++ rest := by rw [List.append_assoc]; rfl
    rw [split_, opened_append (calls ++ [next]), List.length_append]
    exact Nat.le_add_right _ _

/-- A line behind these that has no room. -/
theorem filled_of_full (lines : calls ++ [run] <+: all) (room : (opened calls).length < limit)
    (full : limit ≤ (opened calls).length + (callText run).length) : Filled limit all calls := by
  refine ⟨(List.prefix_append calls [run]).trans lines, room, fun next more => ?_⟩
  have same : calls ++ [next] = calls ++ [run] :=
    (List.prefix_of_prefix_length_le more lines (by simp only [List.length_append, List.length_singleton,
      Nat.le_refl])).eq_of_length (by simp only [List.length_append, List.length_singleton])
  rw [same, length_opened_concat]
  exact full

theorem filled_all (room : (opened all).length < limit) : Filled limit all all := by
  refine ⟨List.prefix_rfl, room, fun next more => ?_⟩
  have longer := more.length_le
  rw [List.length_append, List.length_singleton] at longer
  omega

end Filled

namespace Transpiler
variable {s t : Transpiler} {acc : Accumulator PlaybackInput} {limit : Nat}

/-- The lines of the runs: each but the last one was closed by another input. -/
def allCalls (acc : Accumulator PlaybackInput) : List (PlaybackInput × Nat) :=
  acc.complete.map closed ++ if 0 < acc.count then [(acc.held, acc.count)] else []

/-- Everything that is complete has been put out, and there was room for it. -/
structure Keeps (limit : Nat) (acc : Accumulator PlaybackInput) (s : Transpiler) : Prop where
  accDuration : s.accDuration = acc.count
  held : 0 < acc.count → s.acc = acc.held
  emitted : s.emitted = acc.complete.map closed
  dstn : s.dstn = (opened s.emitted).length
  room : s.dstn < limit

theorem Keeps.filled (keeps : Keeps limit acc s) : Filled limit (allCalls acc) (s.calls limit) := by
  obtain ⟨accDuration, held, emitted, dstn, room⟩ := keeps
  rw [dstn] at room
  rw [calls, allCalls, accDuration, dstn, ← emitted]
  by_cases some_ : 0 < acc.count
  · rw [if_pos some_, if_pos some_, held some_]
    split
    next full => exact filled_of_full List.prefix_rfl room full
    next fits =>
      apply filled_all
      rw [length_opened_concat]
      omega
  · rw [if_neg some_, if_neg some_, List.append_nil]
    exact filled_all room

/-- One more line: it is accumulated, or the one before has no room. -/
theorem Keeps.accumulate (keeps : Keeps limit acc s) (small : acc.count + 1 < 2 ^ 32)
    (begins : acc.count = 0 → s.line = acc.held) : ∃ t, t.src = s.src ∧
      ((s.accumulate limit = .inl t ∧ Keeps limit (acc.push s.line) t) ∨
        (s.accumulate limit = .inr t ∧ ∀ items : List PlaybackInput,
          Filled limit (allCalls ((acc.push s.line).pushAll items)) (t.calls limit))) := by
  obtain ⟨accDuration, held, emitted, dstn, room⟩ := keeps
  have counted : u32 (acc.count + 1) = acc.count + 1 := u32_of_lt small
  simp only [Transpiler.accumulate, accDuration, counted]
  by_cases zero : acc.count = 0
  · have push : acc.push s.line = ⟨acc.complete, acc.held, acc.count + 1⟩ := if_pos (begins zero)
    rw [if_pos zero, push]
    exact ⟨{ s with accDuration := acc.count + 1, acc := s.line }, rfl,
      .inl ⟨if_pos room, rfl, fun _ => begins zero, emitted, dstn, room⟩⟩
  · have held' := held (by omega)
    rw [if_neg zero, held']
    by_cases same : s.line = acc.held
    · have push : acc.push s.line = ⟨acc.complete, acc.held, acc.count + 1⟩ := if_pos same
      rw [if_neg (not_not_intro same.symm), push]
      exact ⟨{ s with accDuration := acc.count + 1, acc := acc.held }, rfl,
        .inl ⟨if_pos room, rfl, fun _ => rfl, emitted, dstn, room⟩⟩
    · have push : acc.push s.line = ⟨acc.complete ++ [(acc.held, acc.count)], s.line, 1⟩ := if_neg same
      have closes : closed (acc.held, acc.count) = (acc.held, acc.count + 1) := by rw [closed, counted]
      rw [if_pos (Ne.symm same)]
      by_cases full : limit ≤ s.dstn + (callText (acc.held, acc.count + 1)).length
      · rw [if_pos full]
        refine ⟨{ s with
          accDuration := acc.count + 1
          acc := acc.held
          dstn := s.dstn + (callText (acc.held, acc.count + 1)).length }, rfl, .inr ⟨rfl, fun items => ?_⟩⟩
        have later := (acc.push s.line).complete_pushAll items
        rw [calls_of_full full]
        simp only
        rw [dstn] at room full
        apply @filled_of_full _ _ _ (closed (acc.held, acc.count)) _ room
        · rw [closes]
          exact full
        · have more := (later.map closed).trans (List.prefix_append _
            (if 0 < ((acc.push s.line).pushAll items).count then
              [(((acc.push s.line).pushAll items).held, ((acc.push s.line).pushAll items).count)] else []))
          rw [push, List.map_append, List.map_singleton] at more
          rw [emitted, push]
          exact more
      · rw [if_neg full]
        have next : (opened (s.emitted ++ [(acc.held, acc.count + 1)])).length =
            s.dstn + (callText (acc.held, acc.count + 1)).length := by rw [length_opened_concat, dstn]
        refine ⟨{ s with
          dstn := s.dstn + (callText (acc.held, acc.count + 1)).length
          emitted := s.emitted ++ [(acc.held, acc.count + 1)]
          accDuration := 1
          acc := s.line }, rfl, .inl ⟨if_pos (Nat.lt_of_not_le full), ?_⟩⟩
        rw [push]
        refine ⟨rfl, fun _ => rfl, ?_, next.symm, Nat.lt_of_not_le full⟩
        simp only
        rw [List.map_append, List.map_singleton, closes, emitted]

theorem Keeps.congr (keeps : Keeps limit acc s) (accDuration : t.accDuration = s.accDuration)
    (held : t.acc = s.acc) (emitted : t.emitted = s.emitted) (dstn : t.dstn = s.dstn) : Keeps limit acc t := by
  constructor
  · rw [accDuration]
    exact keeps.accDuration
  · rw [held]
    exact keeps.held
  · rw [emitted]
    exact keeps.emitted
  · rw [dstn, emitted]
    exact keeps.dstn
  · rw [dstn]
    exact keeps.room

/-- The whole loop, from some point of the source on. -/
theorem Keeps.leaves {lines : List NxLine} (keeps : Keeps limit acc s) (ahead : Ahead lines s)
    (small : acc.count + lines.length < 2 ^ 32) (begins : acc.count = 0 → ∀ l ∈ lines.head?, l.input = acc.held) :
    ∃ t, Leaves (body limit) s t ∧
      Filled limit (allCalls (acc.pushAll (lines.map NxLine.input))) (t.calls limit) := by
  induction lines generalizing s acc with
  | nil => exact ⟨_, .now (body_nil ahead), keeps.filled⟩
  | cons l lines ih =>
    rw [List.length_cons] at small
    obtain ⟨src, skipAhead, goesOn, later⟩ := @body_cons s limit _ _ ahead
    have parsed : Keeps limit acc ({ s with
        src := src
        line := l.input
        skipAheadTmpForScanf := skipAhead } : Transpiler) := keeps.congr rfl rfl rfl rfl
    obtain ⟨t, rest, step⟩ := parsed.accumulate (by omega) fun zero => begins zero l rfl
    have counted := acc.count_push_le l.input
    have some_ : 0 < (acc.push l.input).count := by
      unfold Accumulator.push
      split
      · exact Nat.succ_pos _
      · exact Nat.one_pos
    rcases step with ⟨next, keeps'⟩ | ⟨left, filled⟩
    · obtain ⟨u, leaves, filled⟩ := ih keeps' (later t rest) (by simp only; omega) fun zero => by simp only at zero; omega
      exact ⟨u, .later (goesOn.trans next) leaves, filled⟩
    · exact ⟨t, .now (goesOn.trans left), filled _⟩

end Transpiler

section NulFree

theorem isDigit_ne_nul {c : Char} (digit : c.isDigit = true) : c ≠ nul := by
  rintro rfl
  exact absurd digit (by decide)

theorem nul_not_mem_toDigits (n : Nat) : nul ∉ Nat.toDigits 10 n :=
  fun member => isDigit_ne_nul (isDigit_of_mem _ member) rfl

theorem nul_not_mem_showInt (n : Int) : nul ∉ showInt n := by
  unfold showInt
  split
  · rw [List.mem_cons, not_or]
    exact ⟨by decide, nul_not_mem_toDigits _⟩
  · exact nul_not_mem_toDigits _

theorem nul_not_mem_callText (run : PlaybackInput × Nat) : nul ∉ callText run := by
  intro member
  have inLine := List.mem_of_mem_take member
  simp only [stickText, List.mem_append, List.mem_cons, nul_not_mem_showInt, nul_not_mem_toDigits, or_false,
    false_or] at inLine
  revert inLine
  decide

theorem nul_not_mem_transpiledText (calls : List (PlaybackInput × Nat)) : nul ∉ transpiledText calls := by
  intro member
  rw [transpiledText, List.mem_append, List.mem_append] at member
  rcases member with (opening | inCalls) | closing
  · exact absurd opening (by decide)
  · obtain ⟨run, -, inLine⟩ := List.mem_flatMap.mp inCalls
    exact nul_not_mem_callText run inLine
  · exact absurd closing (by decide)

end NulFree

namespace NxSource

/-- The lines of the output when there is room for all of them. -/
def complete (source : NxSource) : List (PlaybackInput × Nat) :=
  Transpiler.allCalls (Accumulator.pushAll source.inputs ⟨[], source.inputs.headD .zero, 0⟩)

/-- The calls are in `dst` as a closed function, and nothing is written outside of `dst`. -/
structure Closes (source : NxSource) (dstMax : Nat) (calls : List (PlaybackInput × Nat)) : Prop where
  inside : ∀ b ∈ dstWrites calls, ∀ i, b.Covers i → i < dstMax
  lines : calls <+: source.complete
  holds : ∀ dst : Nat → Char, Holds (storeAll (dstWrites calls) dst) ⟨0, transpiledText calls ++ [nul]⟩
  nulFree : nul ∉ transpiledText calls

/-- No line of the output ends with four to eleven bytes left. -/
def EndsApart (source : NxSource) (dstMax : Nat) : Prop :=
  ∀ lines, lines <+: source.complete → ¬(dstMax ≤ (opened lines).length + 11 ∧ (opened lines).length + 3 < dstMax)

/-- Every line has a frame counter at least. -/
theorem length_lines_le (source : NxSource) : source.lines.length ≤ source.text.length := by
  have lines (lines : List NxLine) : lines.length ≤ (lines.flatMap NxLine.text).length := by
    induction lines with
    | nil => exact Nat.le_refl 0
    | cons l lines ih =>
      have counter := List.length_pos_of_ne_nil l.labelled.1
      rw [List.flatMap_cons, List.length_cons, List.length_append, NxLine.text, List.length_append,
        List.length_append]
      omega
  exact lines source.lines

/-- The transpiler returns with as many of the lines as fit. -/
theorem transpiles_filled (source : NxSource) {dstMax : Nat} (short : source.text.length < 0x2000)
    (least : 64 ≤ dstMax) (word : dstMax < 2 ^ 64) :
    ∃ calls, Transpiles source.text dstMax calls ∧ Filled (dstMax - 3) source.complete calls := by
  have few := source.length_lines_le
  have limit : transpileLimit dstMax = dstMax - 3 := by
    have sizes : entrypoint_close.length = 2 := by decide
    rw [transpileLimit, sizes]
    omega
  have keeps : Transpiler.Keeps (dstMax - 3) ⟨[], source.inputs.headD .zero, 0⟩ (.start source.text) := by
    refine ⟨rfl, fun some_ => absurd some_ (Nat.lt_irrefl 0), rfl, rfl, ?_⟩
    have opening : (Transpiler.start source.text).dstn = 14 := by
      show (entrypoint ++ entrypoint_open).length = 14
      decide
    omega
  have begins : ∀ l ∈ source.lines.head?, l.input = source.inputs.headD .zero := by
    intro l first
    rw [inputs, List.headD_eq_head?_getD, List.head?_map, first, Option.map_some, Option.getD_some]
  obtain ⟨t, leaves, filled⟩ := keeps.leaves ahead_start (by simp only; omega) fun _ => begins
  refine ⟨t.calls (dstMax - 3), ⟨t, ?_, ?_⟩, filled⟩
  · rw [limit]
    exact leaves
  · rw [limit]

/-- Filled as it is, `dst` has room for the last terminator exactly when no line ends close to
its end: the next line would go past that end. -/
theorem endsApart_iff {source : NxSource} {dstMax : Nat} {calls : List (PlaybackInput × Nat)} (least : 64 ≤ dstMax)
    (filled : Filled (dstMax - 3) source.complete calls) :
    source.EndsApart dstMax ↔ (opened calls).length + 11 < dstMax := by
  have room := filled.room
  constructor
  · intro apart
    have close := apart calls filled.lines
    omega
  · rintro inside lines lines_ ⟨above, below⟩
    rcases Nat.lt_trichotomy lines.length calls.length with fewer | same | more
    · obtain ⟨next, -, longer⟩ := length_opened_lt lines_ filled.lines fewer
      have line := le_length_callText next
      rw [length_opened_concat] at longer
      omega
    · have equal := (List.prefix_of_prefix_length_le lines_ filled.lines (Nat.le_of_eq same)).eq_of_length same
      rw [equal] at above
      omega
    · obtain ⟨next, more_, longer⟩ := length_opened_lt filled.lines lines_ more
      have full := filled.full next more_
      omega

/-- What the transpiler writes is inside of `dst`, and closed, exactly when no line of the output
ends close to the end of it. -/
theorem closes_iff (source : NxSource) (dstMax : Nat) (short : source.text.length < 0x2000)
    (least : 64 ≤ dstMax) (word : dstMax < 2 ^ 64) :
    ∃ calls, (∀ more, Transpiles source.text dstMax more ↔ more = calls) ∧
      (source.Closes dstMax calls ↔ source.EndsApart dstMax) := by
  obtain ⟨calls, transpiles, filled⟩ := transpiles_filled source short least word
  refine ⟨calls, fun more => ⟨fun other => unique_of_transpiles other transpiles, ?_⟩, ?_⟩
  · rintro rfl
    exact transpiles
  · rw [endsApart_iff least filled, ← dstWrites_inside_iff]
    constructor
    · intro closes
      exact closes.inside
    · intro inside
      exact ⟨inside, filled.lines, holds_dstWrites calls, nul_not_mem_transpiledText calls⟩

theorem tap_closes : ∃ calls, (∀ more, Transpiles tap.text 0x2000 more ↔ more = calls) ∧
    (tap.Closes 0x2000 calls ↔ tap.EndsApart 0x2000) :=
  closes_iff tap 0x2000 (by decide) (by decide) (by decide)

/-- The two lines leave four bytes, of which the closing takes three. -/
theorem tap_not_closes : ∃ calls, Transpiles tap.text 64 calls ∧ ¬tap.Closes 64 calls := by
  obtain ⟨calls, transpiles, filled⟩ := @transpiles_filled tap 64 (by decide) (by decide) (by decide)
  refine ⟨calls, transpiles, fun closes => ?_⟩
  have apart := (endsApart_iff (by decide) filled).mpr (dstWrites_inside_iff.mp closes.inside)
  exact apart tap.complete List.prefix_rfl (by decide)

end NxSource

end LotusKit.Tas

import LotusKit.Tas.TranspileRuns

/-! Where the transpiler reads. After a failed `sscanf` it goes ahead by what the one before
had read, which is nothing at first; then it stays where it is, or leaves the text behind. -/

namespace LotusKit.Tas
open LotusKit.Schedule LotusKit.Lib.Repeat LotusKit.Lib.Scan

section Scanned
variable {text rest : List Char}

/-- Behind a number is less of the text. -/
def Behind (text rest : List Char) : Prop := rest <:+ text ∧ rest.length < text.length

theorem Behind.cons (c : Char) (behind : Behind text rest) : Behind (c :: text) rest :=
  ⟨behind.1.trans (List.suffix_cons c text), Nat.lt_succ_of_lt behind.2⟩

theorem Behind.of_suffix {longer : List Char} (suffix : text <:+ longer) (behind : Behind text rest) :
    Behind longer rest :=
  ⟨behind.1.trans suffix, Nat.lt_of_lt_of_le behind.2 suffix.length_le⟩

theorem Behind.drop (behind : Behind text rest) : text.drop (text.length - rest.length) = rest :=
  (List.suffix_iff_eq_drop.mp behind.1).symm

theorem behind_scanNat {n : Nat} (scanned : scanNat text = some (n, rest)) : Behind text rest := by
  unfold scanNat at scanned
  split at scanned
  · cases scanned
  next some_ =>
    obtain ⟨-, rfl⟩ := Prod.mk.inj (Option.some.inj scanned)
    refine ⟨List.dropWhile_suffix _, ?_⟩
    have whole := congrArg List.length (@List.takeWhile_append_dropWhile _ Char.isDigit text)
    rw [List.length_append] at whole
    have digits := List.length_pos_of_ne_nil some_
    omega

theorem behind_scanInt {n : Int} (scanned : scanInt text = some (n, rest)) : Behind text rest := by
  unfold scanInt at scanned
  split at scanned
  next more =>
    obtain ⟨⟨m, tail⟩, digits, same⟩ := Option.map_eq_some_iff.mp scanned
    obtain ⟨-, rfl⟩ := Prod.mk.inj same
    exact (behind_scanNat digits).cons '-'
  next =>
    obtain ⟨⟨m, tail⟩, digits, same⟩ := Option.map_eq_some_iff.mp scanned
    obtain ⟨-, rfl⟩ := Prod.mk.inj same
    exact behind_scanNat digits

theorem behind_scanD {n : Int} (scanned : scanD text = some (n, rest)) : Behind text rest := by
  have suffix : text.dropWhile isSpace <:+ text := List.dropWhile_suffix _
  unfold scanD at scanned
  split at scanned
  next more spaces =>
    obtain ⟨⟨m, tail⟩, digits, same⟩ := Option.map_eq_some_iff.mp scanned
    obtain ⟨-, rfl⟩ := Prod.mk.inj same
    rw [spaces] at suffix
    exact ((behind_scanNat digits).cons '+').of_suffix suffix
  next => exact (behind_scanInt scanned).of_suffix suffix

/-- `"%d;%d"` is read from the text, up to the rest. -/
def ScansStick (text rest : List Char) : Prop :=
  ∃ x y middle, scanD text = some (x, ';' :: middle) ∧ scanD middle = some (y, rest)

theorem ScansStick.behind (scans : ScansStick text rest) : Behind text rest := by
  obtain ⟨x, y, middle, first, second⟩ := scans
  have suffix := (behind_scanD first).1
  exact ((behind_scanD second).cons ';').of_suffix suffix

theorem ScansStick.sscanfStick (scans : ScansStick text rest) (stick : AnalogStickState) (skipAhead : Nat) :
    (sscanfStick text stick skipAhead).2 = text.length - rest.length := by
  obtain ⟨x, y, middle, first, second⟩ := scans
  simp only [Tas.sscanfStick, first, second]

theorem scansStick_text (stick : AnalogStickState) (ends : Ends Char.isDigit rest) :
    ScansStick (stickText ';' stick ++ rest) rest := by
  refine ⟨stick.mX, stick.mY, showInt stick.mY ++ rest, ?_, scanD_showInt stick.mY ends⟩
  rw [stickText, List.append_assoc, List.cons_append]
  exact scanD_showInt stick.mX (ends_cons (by decide) _)

end Scanned

/-- Where the first number of a line is expected. -/
def sticksOf (src : List Char) : List Char :=
  (parseButtons.run (src.dropWhile isSkipped, 0)).1.dropWhile isBlank

theorem length_compareKeys_le {keys : List NxTasButton} {src : List Char} {lineButton : BitVec 64}
    {result : List Char × BitVec 64} (leaves : compareKeys keys src lineButton = .inr result) :
    result.1.length ≤ src.length := by
  induction keys generalizing src lineButton with
  | nil =>
    obtain rfl := Sum.inr.inj leaves
    exact Nat.le_refl _
  | cons key keys ih =>
    unfold compareKeys at leaves
    split at leaves
    next => cases leaves
    next rest _ found => exact Nat.le_trans (ih leaves) (length_expect found)
    next => exact ih leaves

theorem length_parseButtons_le (s : List Char × BitVec 64) : (parseButtons.run s).1.length ≤ s.1.length := by
  apply @Loop.induct _ _ parseButtons (fun s result => result.1.length ≤ s.1.length)
  · intro s result leaves
    simp only [parseButtons] at leaves
    split at leaves
    next src found =>
      obtain rfl := Sum.inr.inj leaves
      exact length_expect found
    next => exact length_compareKeys_le leaves
  · intro s t goesOn ih
    exact Nat.le_trans ih (Nat.le_of_lt (parseButtons.shrinks s t goesOn))

theorem length_sticksOf_le (src : List Char) : (sticksOf src).length ≤ src.length := by
  calc (sticksOf src).length
      ≤ (parseButtons.run (src.dropWhile isSkipped, 0)).1.length := (List.dropWhile_suffix _).length_le
    _ ≤ (src.dropWhile isSkipped).length := length_parseButtons_le _
    _ ≤ src.length := (List.dropWhile_suffix _).length_le

/-- Behind the buttons of each line come two pairs of numbers. -/
inductive Readable : List Char → Prop
  | nil {src : List Char} : src.dropWhile isSkipped = [] → Readable src
  | line {src middle rest : List Char} : src.dropWhile isSkipped ≠ [] → ScansStick (sticksOf src) middle →
      ScansStick (middle.dropWhile isBlank) rest → Readable rest → Readable src

namespace Transpiler
variable {s t : Transpiler} {limit : Nat}

/-- How far `src` is moved ahead behind each of the two `sscanf`, and what was left then. -/
def jumps (s : Transpiler) : List (Nat × List Char) :=
  let src := sticksOf s.src
  let skipAhead := (sscanfStick src s.line.lStick s.skipAheadTmpForScanf).2
  let src' := (src.drop skipAhead).dropWhile isBlank
  [(skipAhead, src), ((sscanfStick src' s.line.rStick skipAhead).2, src')]

/-- An iteration does not take `src` past the terminator. -/
def JumpsInside (s : Transpiler) : Prop :=
  s.src.dropWhile isSkipped ≠ [] → ∀ jump ∈ s.jumps, jump.1 ≤ jump.2.length

/-- With this source, the function returns and reads nothing behind the terminator. -/
structure Reads (src : List Char) (dstMax : Nat) : Prop where
  returns : ∃ s, Leaves (body (transpileLimit dstMax)) (start src) s
  inside : ∀ s, Visits (body (transpileLimit dstMax)) (start src) s → s.JumpsInside

theorem loopOn_inl (goesOn : loopOn limit s = .inl t) : t = s := by
  unfold loopOn at goesOn
  split at goesOn
  · exact (Sum.inl.inj goesOn).symm
  · cases goesOn

/-- Once a line is parsed, the source is left alone. -/
theorem src_accumulate (goesOn : s.accumulate limit = .inl t) : t.src = s.src := by
  simp only [accumulate] at goesOn
  split at goesOn
  · rw [loopOn_inl goesOn]
  · split at goesOn
    · split at goesOn
      · cases goesOn
      · rw [loopOn_inl goesOn]
    · rw [loopOn_inl goesOn]

section Line
variable {middle rest : List Char}

theorem jumps_eq (first : ScansStick (sticksOf s.src) middle)
    (second : ScansStick (middle.dropWhile isBlank) rest) : s.jumps =
      [((sticksOf s.src).length - middle.length, sticksOf s.src),
        ((middle.dropWhile isBlank).length - rest.length, middle.dropWhile isBlank)] := by
  simp only [jumps, first.sscanfStick, first.behind.drop, second.sscanfStick]

/-- The source that is left when a line is parsed. -/
theorem src_parseLine (first : ScansStick (sticksOf s.src) middle)
    (second : ScansStick (middle.dropWhile isBlank) rest) :
    ({ s with src := s.src.dropWhile isSkipped } : Transpiler).parseLine.src = rest := by
  have sticks : (parseButtons.run (s.src.dropWhile isSkipped, 0)).1.dropWhile isBlank = sticksOf s.src := rfl
  simp only [parseLine, sticks, first.sscanfStick, first.behind.drop, second.sscanfStick, second.behind.drop]

end Line

/-- An iteration over a readable source stays inside, and leaves a shorter one. -/
theorem readable_body (readable : Readable s.src) :
    s.JumpsInside ∧ ∀ t, s.body limit = .inl t → Readable t.src ∧ t.src.length < s.src.length := by
  cases readable with
  | nil none_ =>
    refine ⟨fun some_ => absurd none_ some_, fun t goesOn => ?_⟩
    simp only [body, none_, if_true] at goesOn
    cases goesOn
  | @line _ middle rest some_ first second more =>
    constructor
    · intro _ jump member
      rw [jumps_eq first second] at member
      rcases List.mem_cons.mp member with rfl | member
      · exact Nat.sub_le _ _
      · obtain rfl := List.mem_singleton.mp member
        exact Nat.sub_le _ _
    · intro t goesOn
      simp only [body, if_neg some_] at goesOn
      rw [src_accumulate goesOn, src_parseLine first second]
      refine ⟨more, ?_⟩
      have firstBehind := first.behind.2
      have secondBehind := second.behind.2
      have blanks := (List.dropWhile_suffix isBlank (l := middle)).length_le
      have sticks := length_sticksOf_le s.src
      omega

end Transpiler

section Sources
variable {l : NxLine} {rest : List Char}

theorem NxLine.readable {before : List Char} (skipped : ∀ c ∈ before, isSkipped c = true)
    (separate : l.ending ≠ [] ∨ rest = []) (more : Readable (l.ending ++ rest)) :
    Readable (before ++ (l.text ++ rest)) := by
  have dropped := @NxLine.dropWhile_text l rest before skipped
  have start : sticksOf (before ++ (l.text ++ rest)) = l.sticks rest := by
    rw [sticksOf, dropped, NxLine.parseButtons_body]
    exact NxLine.dropWhile_gap _ _ _
  refine @Readable.line _ (l.gaps.2.2.text ++ (stickText ';' l.rStick ++ (l.ending ++ rest))) _ ?_ ?_ ?_ more
  · rw [dropped]
    exact NxLine.body_ne_nil
  · rw [start]
    exact scansStick_text l.lStick (l.gaps.2.2.ends_isDigit _)
  · rw [NxLine.dropWhile_gap]
    exact scansStick_text l.rStick (NxLine.ends_isDigit separate)

/-- Well-formed lines are readable. -/
theorem NxSource.readable (source : NxSource) : Readable source.text := by
  have lines (lines : List NxLine) (ended : ∀ l ∈ lines.dropLast, l.ending ≠ []) :
      ∀ before : List Char, (∀ c ∈ before, isSkipped c = true) →
        Readable (before ++ lines.flatMap NxLine.text) := by
    induction lines with
    | nil =>
      intro before skipped
      rw [List.flatMap_nil]
      exact .nil (ends_nil.dropWhile skipped)
    | cons l lines ih =>
      intro before skipped
      rw [List.flatMap_cons]
      cases lines with
      | nil =>
        have ended' : ∀ l ∈ ([] : List NxLine).dropLast, l.ending ≠ [] :=
          fun other member => absurd member List.not_mem_nil
        exact NxLine.readable skipped (.inr rfl) (ih ended' _ fun c member => (l.ends c member).1)
      | cons next lines =>
        have ended' : ∀ l ∈ (next :: lines).dropLast, l.ending ≠ [] :=
          fun other member => ended other (List.mem_cons_of_mem l member)
        exact NxLine.readable skipped (.inl (ended l List.mem_cons_self))
          (ih ended' _ fun c member => (l.ends c member).1)
  exact lines source.lines source.ended [] nofun

end Sources

/-- On a readable text the transpiler returns, and reads nothing behind it. -/
theorem reads_of_readable {src : List Char} (readable : Readable src) (dstMax : Nat) :
    Transpiler.Reads src dstMax := by
  constructor
  · apply @leaves_of_shrinks _ _ _ _ (fun s : Transpiler => Readable s.src) (fun s => s.src.length) _ readable
    intro s t inv goesOn
    exact (Transpiler.readable_body inv).2 t goesOn
  · intro s visits
    have inv : Readable s.src := @Visits.invariant _ _ _ _ _ (fun s : Transpiler => Readable s.src)
      (fun s t inv goesOn => ((Transpiler.readable_body inv).2 t goesOn).1) visits readable
    exact (@Transpiler.readable_body s 0 inv).1

theorem tap_reads : Transpiler.Reads NxSource.tap.text 0x2000 := reads_of_readable NxSource.tap.readable 0x2000

namespace Transpiler

/-- A text that is no line, before which no number was read. -/
def Stray (s : Transpiler) : Prop :=
  s.src = ['X'] ∧ s.acc = .zero ∧ s.line = .zero ∧ s.skipAheadTmpForScanf = 0 ∧ s.dstn = 14

theorem stray_parseLine {s : Transpiler} (stray : s.Stray) : s.parseLine = s := by
  obtain ⟨src, acc, accDuration, dstn, line, skipAhead, emitted⟩ := s
  obtain ⟨rfl, rfl, rfl, rfl, rfl⟩ := stray
  have buttons : parseButtons.run (['X'], 0) = (['X'], 0) := Loop.run_leaves rfl
  simp only [parseLine, buttons]
  rfl

/-- Such a text is read again and again. -/
theorem stray_body {s : Transpiler} (stray : s.Stray) :
    ∃ t, s.body (transpileLimit 0x2000) = .inl t ∧ t.Stray := by
  have stays : s.src.dropWhile isSkipped = s.src := by
    rw [stray.1]
    rfl
  have parsed : s.body (transpileLimit 0x2000) = s.accumulate (transpileLimit 0x2000) := by
    simp only [body, stays]
    rw [if_neg (by rw [stray.1]; decide)]
    exact congrArg (accumulate _) (stray_parseLine stray)
  obtain ⟨src, acc, line, skipAhead, dstn⟩ := stray
  by_cases zero : s.accDuration = 0
  · refine ⟨{ s with accDuration := u32 (s.accDuration + 1), acc := s.line }, ?_, src, line, line, skipAhead, dstn⟩
    rw [parsed, accumulate]
    simp only [if_pos zero, loopOn, dstn]
    exact if_pos (by decide)
  · refine ⟨{ s with accDuration := u32 (s.accDuration + 1) }, ?_, src, acc, line, skipAhead, dstn⟩
    rw [parsed, accumulate]
    simp only [if_neg zero, acc, line, ne_eq, not_true_eq_false, if_false, loopOn, dstn]
    exact if_pos (by decide)

/-- The parser stays where a line is no line, and goes past the end where the last stick is missing. -/
theorem malformed_not_reads :
    (¬∃ s, Leaves (body (transpileLimit 0x2000)) (start ['X']) s) ∧
      ¬∀ s, Visits (body (transpileLimit 0x2000)) (start "1 NONE 0;0".toList) s → s.JumpsInside := by
  constructor
  · rintro ⟨s, leaves⟩
    exact not_leaves_of_forever (fun s stray => stray_body stray) ⟨rfl, rfl, rfl, rfl, rfl⟩ leaves
  · intro inside
    have first := inside _ .start (by decide)
    have buttons : parseButtons.run ("1 NONE 0;0".toList.dropWhile isSkipped, 0) = (" 0;0".toList, 0) :=
      Loop.run_leaves (by decide)
    simp only [jumps, start, sticksOf, buttons] at first
    exact absurd (first (3, []) (List.mem_cons_of_mem _ List.mem_cons_self)) (by decide)

end Transpiler

end LotusKit.Tas

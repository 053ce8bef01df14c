import LotusKit.Tas.Transpile

/-! Well-formed nx-TAS sources, and what the transpiler reads of their lines. -/

namespace LotusKit.Tas
open LotusKit.Schedule LotusKit.Lib.Scan LotusKit.Lib.Repeat

/-- White space that keeps two parts of a line apart. -/
structure Gap where
  text : List Char
  some_ : text ≠ []
  blank : ∀ c ∈ text, isBlank c = true

namespace Gap
variable (gap : Gap)

theorem first : ∃ c more, gap.text = c :: more ∧ isBlank c = true := by
  obtain ⟨text, some_, blank⟩ := gap
  cases text with
  | nil => exact absurd rfl some_
  | cons c more => exact ⟨c, more, rfl, blank c List.mem_cons_self⟩

theorem ends_isDigit (rest : List Char) : Ends Char.isDigit (gap.text ++ rest) := by
  obtain ⟨c, more, text, blank⟩ := gap.first
  have notDigit : c.isDigit = false := by
    simp only [isBlank, decide_eq_true_eq] at blank
    rcases blank with rfl | rfl
    · decide
    · decide
  rw [text]
  exact ends_cons notDigit _

end Gap

/-- The numbers that `%d` can read. -/
def FitsInt (stick : AnalogStickState) : Prop :=
  (-2 ^ 31 ≤ stick.mX ∧ stick.mX < 2 ^ 31) ∧ -2 ^ 31 ≤ stick.mY ∧ stick.mY < 2 ^ 31

instance (stick : AnalogStickState) : Decidable (FitsInt stick) :=
  inferInstanceAs (Decidable ((_ ∧ _) ∧ _))

/-- A line: the frame, the buttons in any order, and the sticks. -/
structure NxLine where
  label : List Char
  keys : List NxTasButton
  lStick : AnalogStickState
  rStick : AnalogStickState
  gaps : Gap × Gap × Gap
  /-- What ends the line. -/
  ending : List Char
  labelled : label ≠ [] ∧ ∀ c ∈ label, c.isDigit = true
  inRange : FitsInt lStick ∧ FitsInt rStick
  ends : ∀ c ∈ ending, isSkipped c = true ∧ c.isDigit = false

namespace NxLine
variable (l : NxLine)

def input : PlaybackInput := ⟨buttonsValue l.keys, l.lStick, l.rStick⟩

/-- The line without the frame. -/
def body : List Char :=
  buttonsStr ';' l.keys ++ l.gaps.2.1.text ++ stickText ';' l.lStick ++ l.gaps.2.2.text ++
    stickText ';' l.rStick ++ l.ending

def text : List Char := l.label ++ l.gaps.1.text ++ l.body

end NxLine

/-- Any number of lines; only the last one can do without an end. -/
structure NxSource where
  lines : List NxLine
  ended : ∀ l ∈ lines.dropLast, l.ending ≠ []

namespace NxSource

def text (source : NxSource) : List Char := source.lines.flatMap NxLine.text

def inputs (source : NxSource) : List PlaybackInput := source.lines.map NxLine.input

end NxSource

section Sticks
variable {rest : List Char}

theorem not_isSpace_of_isDigit {c : Char} (digit : c.isDigit = true) : isSpace c = false ∧ c ≠ '+' := by
  have bounds : 48 ≤ c.toNat ∧ c.toNat ≤ 57 := by
    simp only [Char.isDigit, Bool.and_eq_true, decide_eq_true_eq] at digit
    exact digit
  constructor
  · simp only [isSpace, decide_eq_false_iff_not, not_or, not_and]
    refine ⟨?_, by omega⟩
    rintro rfl
    exact absurd bounds.1 (by decide)
  · rintro rfl
    exact absurd bounds.1 (by decide)

theorem showInt_first (n : Int) (rest : List Char) :
    ∃ c more, showInt n ++ rest = c :: more ∧ (c = '-' ∨ c.isDigit = true) := by
  obtain ⟨c, more, digits, digit⟩ := exists_toDigits_eq_cons n.natAbs
  unfold showInt
  split
  · exact ⟨'-', _, rfl, .inl rfl⟩
  · rw [digits]
    exact ⟨c, more ++ rest, rfl, .inr digit⟩

/-- What `%d` reads of a printed number. -/
theorem scanD_showInt (n : Int) (ends : Ends Char.isDigit rest) :
    scanD (showInt n ++ rest) = some (n, rest) := by
  obtain ⟨c, more, text, kind⟩ := showInt_first n rest
  have first : isSpace c = false ∧ c ≠ '+' := by
    rcases kind with rfl | digit
    · decide
    · exact not_isSpace_of_isDigit digit
  have scanned := scanInt_showInt n ends
  rw [text] at scanned ⊢
  unfold scanD
  rw [List.dropWhile_cons_of_neg (by rw [first.1]; decide)]
  split
  next same => exact absurd (List.cons.inj same).1 first.2
  next => exact scanned

theorem ends_isBlank_stickText (sep : Char) (stick : AnalogStickState) (rest : List Char) :
    Ends isBlank (stickText sep stick ++ rest) := by
  obtain ⟨c, more, text, kind⟩ := showInt_first stick.mX (sep :: showInt stick.mY ++ rest)
  have notBlank : isBlank c = false := by
    rcases kind with rfl | digit
    · decide
    · simp only [isBlank, decide_eq_false_iff_not, not_or]
      constructor
      · rintro rfl
        exact absurd digit (by decide)
      · rintro rfl
        exact absurd digit (by decide)
  rw [stickText, List.append_assoc, text]
  exact ends_cons notBlank more

theorem sscanfStick_text (stick old : AnalogStickState) (skipAhead : Nat) (ends : Ends Char.isDigit rest) :
    sscanfStick (stickText ';' stick ++ rest) old skipAhead =
      (stick, (stickText ';' stick).length) := by
  have semicolon : Ends Char.isDigit (';' :: (showInt stick.mY ++ rest)) := ends_cons (by decide) _
  have text : stickText ';' stick ++ rest = showInt stick.mX ++ ';' :: (showInt stick.mY ++ rest) := by
    simp only [stickText, List.append_assoc, List.cons_append]
  rw [text, sscanfStick, scanD_showInt stick.mX semicolon]
  simp only [scanD_showInt stick.mY ends]
  simp only [stickText, List.length_append, List.length_cons]
  congr 1
  omega

end Sticks

section Buttons
variable {rest : List Char} {key : NxTasButton} {lineButton : BitVec 64}

/-- No key of the list is a prefix of another one that is compared later. -/
theorem compareKeys_separator (key : NxTasButton) (rest : List Char) (lineButton : BitVec 64) :
    compareKeys NxTasButton.compared (key.name ++ ';' :: rest) lineButton =
      .inl (rest, lineButton ||| key.value) := by
  cases key <;> rfl

theorem compareKeys_blank {c : Char} (blank : isBlank c = true) :
    compareKeys NxTasButton.compared (key.name ++ c :: rest) lineButton =
      .inr (c :: rest, lineButton ||| key.value) := by
  simp only [isBlank, decide_eq_true_eq] at blank
  rcases blank with rfl | rfl
  · cases key <;> rfl
  · cases key <;> rfl

theorem expect_none_name (key : NxTasButton) (rest : List Char) :
    expect "NONE".toList (key.name ++ rest) = none := by
  cases key <;> rfl

theorem parseButtons_names {c : Char} (blank : isBlank c = true) (keys : List NxTasButton) :
    parseButtons.run (key.name ++ keys.flatMap (fun key => ';' :: key.name) ++ c :: rest, lineButton) =
      (c :: rest, ((key :: keys).map NxTasButton.value).foldl (· ||| ·) lineButton) := by
  induction keys generalizing key lineButton with
  | nil =>
    apply Loop.run_leaves
    rw [List.flatMap_nil, List.append_nil]
    simp only [parseButtons, expect_none_name]
    exact compareKeys_blank blank
  | cons next keys ih =>
    have text : key.name ++ (next :: keys).flatMap (fun key => ';' :: key.name) ++ c :: rest =
        key.name ++ ';' :: (next.name ++ keys.flatMap (fun key => ';' :: key.name) ++ c :: rest) := by
      rw [List.flatMap_cons, List.append_assoc, List.cons_append, List.cons_append, List.append_assoc]
    have goesOn : parseButtons.body
        (key.name ++ (next :: keys).flatMap (fun key => ';' :: key.name) ++ c :: rest, lineButton) =
        .inl (next.name ++ keys.flatMap (fun key => ';' :: key.name) ++ c :: rest,
          lineButton ||| key.value) := by
      rw [text]
      simp only [parseButtons, expect_none_name]
      exact compareKeys_separator key _ lineButton
    rw [Loop.run_goesOn goesOn, ih]
    rfl

/-- The buttons of a line, in any order. -/
theorem parseButtons_text {c : Char} (blank : isBlank c = true) (keys : List NxTasButton) :
    parseButtons.run (buttonsStr ';' keys ++ c :: rest, 0) = (c :: rest, buttonsValue keys) := by
  cases keys with
  | nil =>
    apply Loop.run_leaves
    rw [buttonsStr_nil]
    simp only [parseButtons, expect_append]
    rfl
  | cons key keys =>
    rw [buttonsStr_cons]
    exact parseButtons_names blank keys

theorem ends_isSkipped_buttonsStr (sep : Char) (keys : List NxTasButton) (rest : List Char) :
    Ends isSkipped (buttonsStr sep keys ++ rest) := by
  cases keys with
  | nil =>
    rw [buttonsStr_nil]
    exact ends_cons (by decide) _
  | cons key keys =>
    have first : ∃ more, key.name = 'K' :: more := by cases key <;> exact ⟨_, rfl⟩
    obtain ⟨more, name⟩ := first
    rw [buttonsStr_cons, name]
    exact ends_cons (by decide) _

end Buttons

namespace NxLine
variable {l : NxLine} {rest : List Char}

theorem ends_isDigit (separate : l.ending ≠ [] ∨ rest = []) : Ends Char.isDigit (l.ending ++ rest) := by
  cases ending : l.ending with
  | nil =>
    obtain rfl := separate.resolve_left (not_not_intro ending)
    exact ends_nil
  | cons c more =>
    have kind := l.ends c (by rw [ending]; exact List.mem_cons_self)
    exact ends_cons kind.2 _

/-- The first stick of the line, and what follows. -/
def sticks (l : NxLine) (rest : List Char) : List Char :=
  stickText ';' l.lStick ++ (l.gaps.2.2.text ++ (stickText ';' l.rStick ++ (l.ending ++ rest)))

theorem parseButtons_body :
    parseButtons.run (l.body ++ rest, 0) = (l.gaps.2.1.text ++ l.sticks rest, buttonsValue l.keys) := by
  obtain ⟨c, more, gap, blank⟩ := l.gaps.2.1.first
  rw [body, gap]
  simp only [List.append_assoc, List.cons_append]
  exact parseButtons_text blank l.keys

theorem dropWhile_gap (gap : Gap) (stick : AnalogStickState) (rest : List Char) :
    (gap.text ++ (stickText ';' stick ++ rest)).dropWhile isBlank = stickText ';' stick ++ rest :=
  (ends_isBlank_stickText _ _ _).dropWhile gap.blank

/-- What is read of a line, whatever was read before. -/
theorem parseLine_body {s : Transpiler} (src : s.src = l.body ++ rest)
    (separate : l.ending ≠ [] ∨ rest = []) : ∃ skipAhead, s.parseLine =
      { s with src := l.ending ++ rest, line := l.input, skipAheadTmpForScanf := skipAhead } := by
  have afterRight := ends_isDigit separate
  have afterLeft := l.gaps.2.2.ends_isDigit (stickText ';' l.rStick ++ (l.ending ++ rest))
  refine ⟨(stickText ';' l.rStick).length, ?_⟩
  simp only [Transpiler.parseLine, src, parseButtons_body, sticks, dropWhile_gap,
    sscanfStick_text _ _ _ afterLeft, List.drop_left, sscanfStick_text _ _ _ afterRight, input]

/-- Up to its buttons, a line is skipped. -/
theorem dropWhile_text (ending : List Char) (skipped : ∀ c ∈ ending, isSkipped c = true) :
    (ending ++ (l.text ++ rest)).dropWhile isSkipped = l.body ++ rest := by
  have buttons : Ends isSkipped (l.body ++ rest) := by
    simp only [body, List.append_assoc]
    exact ends_isSkipped_buttonsStr _ _ _
  have split_ : ending ++ (l.text ++ rest) = (ending ++ l.label ++ l.gaps.1.text) ++ (l.body ++ rest) := by
    simp only [text, List.append_assoc]
  rw [split_]
  apply buttons.dropWhile
  intro c member
  rcases List.mem_append.mp member with before | inGap
  · rcases List.mem_append.mp before with inEnding | inLabel
    · exact skipped c inEnding
    · simp only [isSkipped, l.labelled.2 c inLabel, or_true, decide_true]
  · simp only [isSkipped, l.gaps.1.blank c inGap, true_or, decide_true]

theorem body_ne_nil : l.body ++ rest ≠ [] := by
  simp only [body, List.append_assoc]
  exact List.append_ne_nil_of_left_ne_nil (buttonsStr_ne_nil _ _) _

end NxLine

end LotusKit.Tas

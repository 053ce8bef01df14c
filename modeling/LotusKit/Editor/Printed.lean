import LotusKit.Editor.Held

/-! The lines of a printed script. -/

namespace LotusKit.Editor
open LotusKit.Lib LotusKit.Lib.Scan LotusKit.Lib.Regex Numbers

variable {N : Numbers}

/-- The lines of a frame in the script. -/
def Frame.lines (f : Frame N) : List (List Char) := f.code.map (indentation ++ ·)

section Characters
variable {c : Char}

theorem not_mem_text (other : isNumberChar c = false) (x : N.Number) : c ∉ N.text x := by
  intro member
  rw [Numbers.text_isNumberChar x c member] at other
  cases other

theorem isWhite_of_isNumberChar (number : isNumberChar c = true) : isWhite c = false := by
  simp only [isNumberChar, isDecimalChar, Bool.or_eq_true, beq_iff_eq, decide_eq_true_eq] at number
  rcases number with (((digit | rfl) | rfl) | rfl) | word
  · exact not_isWhite_of_isDigit digit
  · decide
  · decide
  · decide
  · have all : "eInfityNa".toList.all (fun c => !isWhite c) = true := by decide
    simpa only [Bool.not_eq_true'] using List.all_eq_true.mp all c word

/-- Without blanks, digits and what decimals have besides are all there is. -/
theorem plain_of_isWhite_or {x : N.Number} (of : ∀ c ∈ N.text x, isWhite c = true ∨ isDecimalChar c = true) :
    (N.shortest x).Plain := by
  apply plain_of_isDecimalChar
  intro c member
  apply (of c member).resolve_left
  rw [isWhite_of_isNumberChar (text_isNumberChar x c member)]
  decide

/-- A number that is printed as digits is an integer. -/
theorem counts_of_isDigit {x : N.Number} (digits : ∀ c ∈ N.text x, c.isDigit = true) : N.Counts x := by
  have plain : (N.shortest x).Plain := plain_of_isDecimalChar fun c member => isDecimalChar_of_isDigit (digits c member)
  refine ⟨?_, plain⟩
  rw [text] at digits
  cases shortest : N.shortest x with
  | nan =>
    rw [shortest] at plain
    exact plain.elim
  | infinity negative =>
    rw [shortest] at plain
    exact plain.elim
  | zero => exact .inl shortest
  | finite negative s e =>
    rw [shortest] at digits plain
    have some_ : 0 < (Nat.toDigits 10 s).length := List.length_pos_iff.mpr Nat.toDigits_ne_nil
    obtain ⟨least, most⟩ := plain
    cases negative with
    | true => exact absurd (digits '-' (List.mem_append_left _ List.mem_cons_self)) (by decide)
    | false =>
      refine .inr ⟨s, e, shortest, ?_⟩
      by_contra fraction
      have point : '.' ∈ Shortest.decimalText s e := by
        simp only [Shortest.decimalText]
        rw [if_neg (by omega)]
        split
        · exact List.mem_append_right _ List.mem_cons_self
        · rw [if_pos ⟨least, by omega⟩]
          exact List.mem_cons_of_mem _ List.mem_cons_self
      exact absurd (digits '.' (List.mem_append_right _ point)) (by decide)

theorem Numbers.Natural.whole {x : N.Number} (natural : N.Natural x) : N.Whole x := by
  rcases natural with zero | ⟨s, e, shortest, positive⟩
  · exact .inl zero
  · exact .inr ⟨false, s, e, shortest, positive⟩

/-- A natural number without an exponent is printed as digits. -/
theorem Numbers.Counts.digits {x : N.Number} (counts : N.Counts x) : N.text x ≠ [] ∧ ∀ c ∈ N.text x, c.isDigit = true := by
  obtain ⟨natural, plain⟩ := counts
  rcases natural with zero | ⟨s, e, shortest, positive⟩
  · rw [text, zero]
    exact ⟨List.cons_ne_nil _ _, List.forall_mem_singleton.mpr rfl⟩
  · rw [shortest] at plain
    have printed : (Shortest.finite false s e).text = Nat.toDigits 10 s ++ List.replicate e.toNat '0' :=
      if_pos ⟨positive, plain.2⟩
    rw [text, shortest, printed]
    refine ⟨List.append_ne_nil_of_left_ne_nil Nat.toDigits_ne_nil _, fun c member => ?_⟩
    rcases List.mem_append.mp member with front | zeros
    · exact isDigit_of_mem c front
    · rw [(List.mem_replicate.mp zeros).2]
      decide

def isButtonChar (c : Char) : Bool := c.isUpper || c == '|'

theorem isButtonChar_of_mem {buttons : List (List Char)} (of : ∀ btn ∈ buttons, btn ∈ BUTTONS) :
    ∀ c ∈ buttonsText buttons, isButtonChar c = true := by
  have names : ∀ btn ∈ BUTTONS, btn.all isButtonChar = true := by decide
  intro c member
  unfold buttonsText at member
  split at member
  next =>
    have all : "NONE".toList.all isButtonChar = true := by decide
    exact List.all_eq_true.mp all c member
  next =>
    clear * - of names member
    induction buttons with
    | nil => cases member
    | cons btn buttons ih =>
      have own := names btn (of btn List.mem_cons_self)
      cases buttons with
      | nil =>
        rw [List.intercalate_singleton] at member
        exact List.all_eq_true.mp own c member
      | cons next buttons =>
        rw [List.intercalate_cons_cons, List.append_assoc] at member
        rcases List.mem_append.mp member with front | behind
        · exact List.all_eq_true.mp own c front
        · rcases List.mem_append.mp behind with bar | rest
          · rw [List.mem_singleton.mp bar]
            decide
          · exact ih (fun other later => of other (List.mem_cons_of_mem btn later)) rest

theorem not_mem_buttonsText {buttons : List (List Char)} (of : ∀ btn ∈ buttons, btn ∈ BUTTONS)
    (other : isButtonChar c = false) : c ∉ buttonsText buttons := by
  intro member
  rw [isButtonChar_of_mem of c member] at other
  cases other

/-- What is no part of a number, of `, ` and of the words is no part of the line. -/
theorem not_mem_posRot (other : isNumberChar c = false) (apart : c ∉ "Player.setPosRot(, );".toList)
    (x y z : N.Number) (rot : List N.Number) :
    ∀ line ∈ (Frame.pos_rot x y z rot).code, c ∉ line := by
  have number (x : N.Number) : c ∉ N.text x := not_mem_text other x
  have angles : c ∉ ", ".toList.intercalate (rot.map N.text) := by
    apply not_mem_intercalate (fun member => apart (by simp at member ⊢; tauto))
    intro text member
    obtain ⟨value, -, rfl⟩ := List.mem_map.mp member
    exact number value
  intro line member
  obtain rfl := List.mem_singleton.mp member
  simp only [List.mem_append, not_or]
  simp at apart
  simp [apart, number]
  exact angles

end Characters

theorem trim_cons {c : Char} (solid : isWhite c = false) (rest : List Char) :
    trim (c :: rest) = c :: rest.rdropWhile isWhite :=
  @trim_append [] rest c c rfl solid solid

section Lines
variable {f : Frame N}

/-- A line of a frame starts with a character that is not blank. -/
theorem code_first {line : List Char} (member : line ∈ f.code) :
    ∃ c rest, line = c :: rest ∧ isWhite c = false := by
  cases f with
  | gyro_set orientation x y z =>
    rcases List.mem_cons.mp member with rfl | later
    · exact ⟨'t', _, rfl, by decide⟩
    · obtain rfl := List.mem_singleton.mp later
      exact ⟨'t', _, rfl, by decide⟩
  | _ =>
    obtain rfl := List.mem_singleton.mp member
    exact ⟨_, _, rfl, by decide⟩

theorem trim_ne_nil {line : List Char} (member : line ∈ f.lines) : trim line ≠ [] := by
  obtain ⟨code, own, rfl⟩ := List.mem_map.mp member
  obtain ⟨c, rest, rfl, solid⟩ := code_first own
  rw [trim_indentation, trim_cons solid]
  exact List.cons_ne_nil _ _

/-- The code of a frame has no newlines, but for the name of a file. -/
theorem newline_code (shaped : f.Shaped) (names : ∀ filename, f = .exec_file filename → '\n' ∉ filename)
    {line : List Char} (member : line ∈ f.code) : '\n' ∉ line := by
  have number (x : N.Number) : '\n' ∉ N.text x := not_mem_text (by decide) x
  cases f with
  | input duration buttons lstick rstick =>
    obtain rfl := List.mem_singleton.mp member
    have keys := not_mem_buttonsText shaped.1.2 (c := '\n') (by decide)
    simp [stickText, number, keys]
  | comment text =>
    obtain rfl := List.mem_singleton.mp member
    simp [shaped.2]
  | loop_start variable_ count =>
    obtain rfl := List.mem_singleton.mp member
    have name : '\n' ∉ variable_ := fun within => absurd (shaped.1.1 '\n' within) (by decide)
    simp [number, name]
  | loop_end =>
    obtain rfl := List.mem_singleton.mp member
    decide
  | gyro_set orientation x y z =>
    have upper : '\n' ∉ orientation := fun within => absurd (shaped.1.2 '\n' within) (by decide)
    rcases List.mem_cons.mp member with rfl | later
    · simp [upper]
    · obtain rfl := List.mem_singleton.mp later
      simp [number]
  | gyro_clear =>
    obtain rfl := List.mem_singleton.mp member
    decide
  | pos_rot x y z rot => exact not_mem_posRot (by decide) (by decide) x y z rot line member
  | exec_file filename =>
    obtain rfl := List.mem_singleton.mp member
    simp [names filename rfl]

end Lines

section Script
variable {frames : List (Frame N)}

/-- Texts put together are split where they are. -/
theorem splitOn_intercalate_flatMap {texts : List (List Char)} (some_ : texts ≠ []) :
    (['\n'].intercalate texts).splitOn '\n' = texts.flatMap (·.splitOn '\n') := by
  induction texts with
  | nil => exact absurd rfl some_
  | cons text texts ih =>
    cases texts with
    | nil => rw [List.intercalate_singleton, List.flatMap_singleton]
    | cons next texts =>
      rw [List.intercalate_cons_cons, List.append_assoc, List.singleton_append,
        List.splitOn_append_cons_self, ih (List.cons_ne_nil _ _), List.flatMap_cons (x := text)]

theorem splitOn_printScript (plain : ∀ f ∈ frames, ∀ line ∈ f.code, '\n' ∉ line) (some_ : frames ≠ []) :
    (printScript frames).splitOn '\n' =
      "void main() \x7b".toList :: (frames.flatMap Frame.lines ++ ["\x7d".toList]) := by
  have start : ∀ rest, "void main() \x7b\n".toList ++ rest = "void main() \x7b".toList ++ '\n' :: rest :=
    fun rest => rfl
  have pieces : ∀ f ∈ frames, (['\n'].intercalate f.lines).splitOn '\n' = f.lines := by
    intro f member
    apply List.splitOn_intercalate
    · intro line within
      obtain ⟨code, own, rfl⟩ := List.mem_map.mp within
      have indented : '\n' ∉ indentation := by decide
      simp [indented, plain f member code own]
    · cases f <;> exact List.cons_ne_nil _ _
  have inner : (['\n'].intercalate (frames.map fun f => ['\n'].intercalate f.lines)).splitOn '\n' =
      frames.flatMap Frame.lines := by
    rw [splitOn_intercalate_flatMap (mt List.map_eq_nil_iff.mp some_), List.flatMap_map]
    exact List.flatMap_congr pieces
  show ("void main() \x7b\n".toList ++ ['\n'].intercalate (frames.map fun f => ['\n'].intercalate f.lines) ++
    '\n' :: "\x7d".toList).splitOn '\n' = _
  rw [List.splitOn_append_cons_self, start, List.splitOn_append_cons_self, inner]
  rfl

/-- The parser goes over the lines of the frames and the brace at the end. -/
theorem parse_printScript (plain : ∀ f ∈ frames, ∀ line ∈ f.code, '\n' ∉ line) :
    parseScriptToFrames (printScript frames) =
      parseLines (N := N) (frames.flatMap Frame.lines ++ ["\x7d".toList]) 0 false := by
  have main_ (lines : List (List Char)) :
      parseLines (N := N) ("void main() \x7b".toList :: lines) 0 false = parseLines lines 0 false := by
    have nothing := readLine_main (N := N) []
    rw [List.append_nil] at nothing
    conv => lhs; unfold parseLines
    rw [nothing]
  unfold parseScriptToFrames
  by_cases some_ : frames = []
  · subst some_
    exact main_ ["\x7d".toList]
  · have solid : ∀ line ∈ frames.flatMap Frame.lines, decide (trim line ≠ []) = true := by
      intro line member
      obtain ⟨f, -, own⟩ := List.mem_flatMap.mp member
      exact decide_eq_true (trim_ne_nil own)
    rw [splitOn_printScript plain some_, List.filter_cons_of_pos (by decide), List.filter_append,
      List.filter_eq_self.mpr solid]
    exact main_ _

end Script

end LotusKit.Editor

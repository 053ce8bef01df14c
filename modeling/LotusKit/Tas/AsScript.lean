import LotusKit.Schedule.Applied
import LotusKit.Tas.Recording

/-! Recordings as AngelScript. A recorded script is a body of `tas::input` calls with
literal arguments; here is how the engine reads that much of the language, and that it
reads each emitted line as the call it stands for. -/

namespace LotusKit.Tas
open LotusKit.Schedule LotusKit.Lib.Scan

/-- An integer literal where a `u32` is expected. -/
def literalU32 (n : Int) : Nat := (n % 2 ^ 32).toNat

def NxTasButton.value (key : NxTasButton) : BitVec 64 := 1 <<< key.bit

def buttonsValue (keys : List NxTasButton) : BitVec 64 :=
  (keys.map NxTasButton.value).foldl (· ||| ·) 0

def ButtonsArg.value : ButtonsArg → BitVec 64
  | enum keys => buttonsValue keys
  | raw buttons => BitVec.ofInt 64 buttons

/-- Trailing arguments that are left out are zero. -/
def InputArgs.call (duration : Int) : InputArgs → InputCall
  | none => ⟨literalU32 duration, 0, ⟨0, 0⟩, ⟨0, 0⟩⟩
  | buttons b => ⟨literalU32 duration, b.value, ⟨0, 0⟩, ⟨0, 0⟩⟩
  | left b l => ⟨literalU32 duration, b.value, l, ⟨0, 0⟩⟩
  | both b l r => ⟨literalU32 duration, b.value, l, r⟩

def readStick (text : List Char) : Option (AnalogStickState × List Char) := do
  let (x, text) ← scanInt text
  let text ← expect [','] text
  let (y, text) ← scanInt text
  return (⟨x, y⟩, text)

/-- The enum values by name. -/
def enumValue (name : List Char) : Option (BitVec 64) :=
  if name = "NONE".toList then some 0
  else (NxTasButton.all.find? fun key => key.name = name).map NxTasButton.value

/-- Names and the operator between them. -/
def isEnumChar (c : Char) : Bool := c.isUpper || c == '_' || c == '|'

def readButtons (text : List Char) : Option (BitVec 64 × List Char) :=
  let names := text.takeWhile isEnumChar
  if names = [] then (scanInt text).map fun scanned => (BitVec.ofInt 64 scanned.1, scanned.2)
  else do
    let values ← (names.splitOn '|').mapM enumValue
    return (values.foldl (· ||| ·) 0, text.dropWhile isEnumChar)

/-- The end of a call, or the comma before the next argument. -/
def readMore (text : List Char) (last : InputCall)
    (more : List Char → Option (InputCall × List Char)) : Option (InputCall × List Char) :=
  match expect callEnd text with
  | some rest => some (last, rest)
  | none => (expect argSep text).bind more

def readCall (text : List Char) : Option (InputCall × List Char) := do
  let text ← expect callStart text
  let (duration, text) ← scanInt text
  let duration := literalU32 duration
  readMore text ⟨duration, 0, ⟨0, 0⟩, ⟨0, 0⟩⟩ fun text => do
    let (b, text) ← readButtons text
    readMore text ⟨duration, b, ⟨0, 0⟩, ⟨0, 0⟩⟩ fun text => do
      let (l, text) ← readStick text
      readMore text ⟨duration, b, l, ⟨0, 0⟩⟩ fun text => do
        let (r, text) ← readStick text
        let rest ← expect callEnd text
        return (⟨duration, b, l, r⟩, rest)

/-- The calls up to the closing brace, of at most `fuel` lines. -/
def readCalls : Nat → List Char → Option (List InputCall)
  | 0, _ => none
  | fuel + 1, text =>
    if text = scriptEnd then some []
    else do
      let (call, rest) ← readCall text
      let calls ← readCalls fuel rest
      return call :: calls

/-- A script that consists of a `main` with nothing but calls of `tas::input`. -/
def readScript (text : List Char) : Option (List InputCall) := do
  let body ← expect scriptStart text
  readCalls text.length body

theorem readMore_end (last : InputCall) (more : List Char → Option (InputCall × List Char))
    (rest : List Char) : readMore (callEnd ++ rest) last more = some (last, rest) := by
  rw [readMore, expect_append]

theorem readMore_comma (last : InputCall) (more : List Char → Option (InputCall × List Char))
    (rest : List Char) : readMore (argSep ++ rest) last more = more rest := by
  have notEnd : expect callEnd (argSep ++ rest) = none :=
    expect_cons_ne (by decide) [';', '\n'] (' ' :: rest)
  rw [readMore, notEnd, expect_append, Option.bind_some]

theorem readStick_text (stick : AnalogStickState) {rest : List Char}
    (ends : Ends Char.isDigit rest) : readStick (stickText ',' stick ++ rest) = some (stick, rest) := by
  have text : stickText ',' stick ++ rest =
      showInt stick.mX ++ ([','] ++ (showInt stick.mY ++ rest)) := by
    simp [stickText]
  have comma : Ends Char.isDigit ([','] ++ (showInt stick.mY ++ rest)) := ends_cons (by decide) _
  rw [text, readStick, scanInt_showInt stick.mX comma]
  simp only [Option.bind_eq_bind, Option.bind_some, expect_append,
    scanInt_showInt stick.mY ends, Option.pure_def]

theorem enumValue_name (key : NxTasButton) : enumValue key.name = some key.value := by
  cases key <;> decide

theorem name_isEnumChar (key : NxTasButton) : ∀ c ∈ key.name, isEnumChar c = true ∧ c ≠ '|' := by
  have all : key.name.all (fun c => isEnumChar c && c != '|') = true := by cases key <;> decide
  intro c member
  simpa only [Bool.and_eq_true, bne_iff_ne] using List.all_eq_true.mp all c member

theorem mapM_enumValue (keys : List NxTasButton) :
    (keys.map NxTasButton.name).mapM enumValue = some (keys.map NxTasButton.value) := by
  induction keys with
  | nil => rfl
  | cons key keys ih =>
    simp only [List.map_cons, List.mapM_cons, enumValue_name, ih, Option.pure_def,
      Option.bind_eq_bind, Option.bind_some]

theorem buttonsStr_nil (sep : Char) : buttonsStr sep [] = "NONE".toList := rfl

theorem buttonsStr_cons (sep : Char) (key : NxTasButton) (keys : List NxTasButton) :
    buttonsStr sep (key :: keys) = key.name ++ keys.flatMap fun key => sep :: key.name := by
  rw [buttonsStr]
  simp

/-- The names with the separator between them. -/
theorem buttonsStr_eq (sep : Char) {keys : List NxTasButton} (named : keys ≠ []) :
    buttonsStr sep keys = [sep].intercalate (keys.map NxTasButton.name) := by
  cases keys with
  | nil => exact absurd rfl named
  | cons key keys =>
    clear named
    rw [buttonsStr_cons]
    induction keys generalizing key with
    | nil => simp [List.intercalate]
    | cons next more ih =>
      rw [List.flatMap_cons, List.cons_append, ih next]
      simp [List.intercalate]

theorem buttonsStr_ne_nil (sep : Char) (keys : List NxTasButton) : buttonsStr sep keys ≠ [] := by
  cases keys with
  | nil => exact List.cons_ne_nil _ _
  | cons key keys =>
    have name : key.name ≠ [] := by cases key <;> exact List.cons_ne_nil _ _
    rw [buttonsStr_cons]
    exact List.append_ne_nil_of_left_ne_nil name _

theorem isEnumChar_of_mem_buttonsStr (keys : List NxTasButton) :
    ∀ c ∈ buttonsStr '|' keys, isEnumChar c = true := by
  intro c member
  cases keys with
  | nil =>
    have all : ∀ c ∈ "NONE".toList, isEnumChar c = true := List.all_eq_true.mp (by decide)
    exact all c member
  | cons key keys =>
    rw [buttonsStr_cons] at member
    rcases List.mem_append.mp member with letter | later
    · exact (name_isEnumChar key c letter).1
    · obtain ⟨next, -, own⟩ := List.mem_flatMap.mp later
      rcases List.mem_cons.mp own with rfl | letter
      · decide
      · exact (name_isEnumChar next c letter).1

theorem splitOn_buttonsStr (keys : List NxTasButton) :
    ((buttonsStr '|' keys).splitOn '|').mapM enumValue =
      some (if keys = [] then [0] else keys.map NxTasButton.value) := by
  by_cases named : keys = []
  · subst named
    decide
  · have apart : ∀ name ∈ keys.map NxTasButton.name, '|' ∉ name := by
      intro name member bar
      obtain ⟨key, -, rfl⟩ := List.mem_map.mp member
      exact (name_isEnumChar key '|' bar).2 rfl
    rw [buttonsStr_eq '|' named, List.splitOn_intercalate '|' apart (by simpa using named),
      mapM_enumValue, if_neg named]

/-- The engine reads the names as the bits they stand for. -/
theorem readButtons_enum (keys : List NxTasButton) {rest : List Char} (ends : Ends isEnumChar rest) :
    readButtons (buttonsStr '|' keys ++ rest) = some (buttonsValue keys, rest) := by
  have all := isEnumChar_of_mem_buttonsStr keys
  rw [readButtons, ends.takeWhile all, ends.dropWhile all]
  simp only [if_neg (buttonsStr_ne_nil '|' keys), splitOn_buttonsStr, Option.bind_eq_bind,
    Option.bind_some, Option.pure_def]
  by_cases named : keys = []
  · rw [if_pos named, named]
    rfl
  · rw [if_neg named]
    rfl

theorem isEnumChar_of_isDigit {c : Char} (digit : c.isDigit = true) : isEnumChar c = false := by
  simp only [Char.isDigit, Bool.and_eq_true, decide_eq_true_eq, ge_iff_le,
    UInt32.le_iff_toNat_le] at digit
  have small : c.val.toNat ≤ 57 := digit.2
  have upper : c.isUpper = false := by
    apply Bool.eq_false_iff.mpr
    intro upper
    have large : 65 ≤ c.val.toNat := (toNat_of_isUpper upper).1
    omega
  have other (d : Char) (larger : 57 < d.val.toNat) : (c == d) = false := by
    rw [beq_eq_false_iff_ne]
    rintro rfl
    omega
  rw [isEnumChar, upper, other '_' (by decide), other '|' (by decide)]
  rfl

theorem readButtons_raw (n : Int) {rest : List Char} (ends : Ends Char.isDigit rest) :
    readButtons (showInt n ++ rest) = some (BitVec.ofInt 64 n, rest) := by
  have first : ∃ c more, showInt n = c :: more ∧ isEnumChar c = false := by
    obtain ⟨c, more, digits, digit⟩ := exists_toDigits_eq_cons n.natAbs
    by_cases negative : n < 0
    · exact ⟨'-', _, by rw [showInt, if_pos negative], by decide⟩
    · exact ⟨c, more, by rw [showInt, if_neg negative, digits], isEnumChar_of_isDigit digit⟩
  obtain ⟨c, more, text, other⟩ := first
  have none : (showInt n ++ rest).takeWhile isEnumChar = [] := by
    rw [text, List.cons_append, List.takeWhile_cons_of_neg (by simp [other])]
  rw [readButtons, none, scanInt_showInt n ends]
  rfl

/-- A button argument is followed by a comma or the end of the call. -/
theorem readButtons_text (b : ButtonsArg) {rest : List Char} (names : Ends isEnumChar rest)
    (digits : Ends Char.isDigit rest) : readButtons (b.text ++ rest) = some (b.value, rest) := by
  cases b with
  | enum keys => exact readButtons_enum keys names
  | raw n => exact readButtons_raw n digits

/-- What comes after an argument. -/
theorem ends_comma {kind : Char → Bool} (other : kind ',' = false) (rest : List Char) :
    Ends kind (argSep ++ rest) := ends_cons other _

theorem ends_paren {kind : Char → Bool} (other : kind ')' = false) (rest : List Char) :
    Ends kind (callEnd ++ rest) := ends_cons other _

/-- The engine reads an emitted call as the call it stands for. -/
theorem readCall_format (duration : Int) (args : InputArgs) (rest : List Char) :
    readCall ((Line.asInput duration args).format ++ rest) = some (args.call duration, rest) := by
  have number {text : List Char} (ends : Ends Char.isDigit text) :=
    scanInt_showInt duration ends
  simp only [Line.format, readCall, List.append_assoc, expect_append, Option.bind_eq_bind,
    Option.bind_some]
  cases args with
  | none =>
    simp only [InputArgs.text, List.nil_append, number (ends_paren (by decide) _), Option.bind_some,
      readMore_end, InputArgs.call]
  | buttons b =>
    simp only [InputArgs.text, List.append_assoc, number (ends_comma (by decide) _), Option.bind_some,
      readMore_comma, readButtons_text b (ends_paren (by decide) _) (ends_paren (by decide) _),
      readMore_end, InputArgs.call]
  | left b l =>
    simp only [InputArgs.text, List.append_assoc, number (ends_comma (by decide) _), Option.bind_some,
      readMore_comma, readButtons_text b (ends_comma (by decide) _) (ends_comma (by decide) _),
      readStick_text l (ends_paren (by decide) _), readMore_end, InputArgs.call]
  | both b l r =>
    simp only [InputArgs.text, List.append_assoc, number (ends_comma (by decide) _), Option.bind_some,
      readMore_comma, readButtons_text b (ends_comma (by decide) _) (ends_comma (by decide) _),
      readStick_text l (ends_comma (by decide) _), readStick_text r (ends_paren (by decide) _),
      expect_append, InputArgs.call, Option.pure_def]

theorem format_ne_brace (duration : Int) (args : InputArgs) (rest : List Char) :
    (Line.asInput duration args).format ++ rest ≠ scriptEnd := by
  have start : callStart = 't' :: callStart.tail := by decide
  have brace : scriptEnd = '}' :: scriptEnd.tail := by decide
  intro same
  rw [Line.format, start, brace] at same
  exact absurd (List.cons.inj same).1 (by decide)

theorem readCalls_format (calls : List (Int × InputArgs)) (fuel : Nat) (enough : calls.length < fuel) :
    readCalls fuel ((calls.flatMap fun c => (Line.asInput c.1 c.2).format) ++ scriptEnd) =
      some (calls.map fun c => c.2.call c.1) := by
  induction calls generalizing fuel with
  | nil =>
    obtain ⟨more, rfl⟩ := Nat.exists_eq_add_of_lt enough
    rw [List.flatMap_nil, List.nil_append, readCalls, if_pos rfl, List.map_nil]
  | cons c calls ih =>
    obtain ⟨more, rfl⟩ := Nat.exists_eq_add_of_lt enough
    rw [List.flatMap_cons, List.append_assoc, readCalls, if_neg (format_ne_brace _ _ _),
      readCall_format]
    simp only [Option.bind_eq_bind, Option.bind_some, List.map_cons, Option.pure_def]
    rw [ih _ (by simp only [List.length_cons]; omega), Option.bind_some]

/-- A script with these lines is read as these calls. -/
theorem readScript_format (calls : List (Int × InputArgs)) :
    readScript (scriptStart ++
      ((calls.flatMap fun c => (Line.asInput c.1 c.2).format) ++ scriptEnd)) =
        some (calls.map fun c => c.2.call c.1) := by
  have long : calls.length ≤ (calls.flatMap fun c => (Line.asInput c.1 c.2).format).length := by
    induction calls with
    | nil => exact Nat.le_refl 0
    | cons c calls ih =>
      have positive : 0 < (Line.asInput c.1 c.2).format.length := by
        have start : 0 < callStart.length := by decide
        simp only [Line.format, List.length_append]
        omega
      rw [List.flatMap_cons, List.length_append, List.length_cons]
      omega
  rw [readScript, expect_append]
  simp only [Option.bind_eq_bind, Option.bind_some]
  apply readCalls_format
  rw [List.length_append, List.length_append]
  have header : 0 < scriptStart.length := by decide
  omega

end LotusKit.Tas

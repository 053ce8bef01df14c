import LotusKit.Editor.Printed

/-! The line of an input frame: it is read as the frame unless a number on it has an exponent. -/

namespace LotusKit.Editor
open LotusKit.Lib LotusKit.Lib.Scan LotusKit.Lib.Regex Numbers

variable {N : Numbers}

section Integer
variable {length n : Nat} {caps : Nat → Option (List Char)} {w w' rest : List Char}

/-- A sign and digits. -/
def IsInteger (w : List Char) : Prop :=
  ∃ negative digits, w = signed negative digits ∧ digits ≠ [] ∧ ∀ c ∈ digits, c.isDigit = true

theorem isInteger_text {x : N.Number} (whole : N.Whole x) (plain : (N.shortest x).Plain) :
    IsInteger (N.text x) := by
  obtain ⟨negative, digits, printed, some_, all, -⟩ := text_whole whole plain
  exact ⟨negative, digits, printed, some_, all⟩

theorem parseInt_text {x : N.Number} (whole : N.Whole x) (plain : (N.shortest x).Plain) :
    N.parseInt (N.text x) = x := by
  obtain ⟨negative, digits, printed, some_, all, value⟩ := text_whole whole plain
  rw [printed, parseInt_signed some_ all, value]

theorem IsInteger.first_char (int : IsInteger w) : ∃ c more, w = c :: more ∧ isWhite c = false := by
  obtain ⟨negative, digits, rfl, some_, all⟩ := int
  obtain ⟨c, more, rfl⟩ := List.exists_cons_of_ne_nil some_
  cases negative with
  | false => exact ⟨c, more, rfl, not_isWhite_of_isDigit (all c List.mem_cons_self)⟩
  | true => exact ⟨'-', c :: more, rfl, by decide⟩

theorem first_integer (int : IsInteger w) (ends : Ends Char.isDigit rest) :
    First length integer ⟨w ++ rest, caps⟩ ⟨rest, caps⟩ := by
  obtain ⟨negative, digits, rfl, some_, all⟩ := int
  have number : First length (plus Char.isDigit) ⟨digits ++ rest, caps⟩ ⟨rest, caps⟩ := first_plus some_ all ends
  cases negative with
  | true => exact First.seq (First.opt (first_word ['-'] (digits ++ rest) caps)) number
  | false =>
    obtain ⟨c, more, rfl⟩ := List.exists_cons_of_ne_nil some_
    have unsigned := (isDigit_ne (all c List.mem_cons_self)).1
    apply First.seq (first_skip _) number
    apply results_word_of_none
    exact expect_cons_ne unsigned.symm [] (more ++ rest)

theorem first_comma {blanks : List Char} (white : ∀ c ∈ blanks, isWhite c = true) (ends : Ends isWhite rest) :
    First length comma ⟨',' :: (blanks ++ rest), caps⟩ ⟨rest, caps⟩ :=
  First.seq (first_word [','] (blanks ++ rest) caps) (first_star white ends)

theorem ends_integer (int : IsInteger w) : Ends isWhite (w ++ rest) := by
  obtain ⟨c, more, rfl, solid⟩ := int.first_char
  exact ends_cons solid _

/-- Both numbers of a stick are taken. -/
theorem first_stick (x : IsInteger w) (y : IsInteger w') (ends : Ends Char.isDigit rest) :
    First length (stick n) ⟨',' :: ' ' :: (w ++ ',' :: (w' ++ rest)), caps⟩
      (Match.capture (n + 1) w' (Match.capture n w ⟨rest, caps⟩)) := by
  have point : Ends Char.isDigit (',' :: (w' ++ rest)) := ends_cons (by decide) _
  have blank : ∀ c ∈ [' '], isWhite c = true := List.forall_mem_singleton.mpr rfl
  have left : First length comma ⟨',' :: ([' '] ++ (w ++ ',' :: (w' ++ rest))), caps⟩
      ⟨w ++ ',' :: (w' ++ rest), caps⟩ := first_comma blank (ends_integer x)
  have right : First length comma ⟨',' :: ([] ++ (w' ++ rest)), (Match.capture n w ⟨rest, caps⟩).caps⟩
      ⟨w' ++ rest, (Match.capture n w ⟨rest, caps⟩).caps⟩ := first_comma nofun (ends_integer y)
  apply First.opt
  apply First.seq left
  apply First.seq (First.group (first_integer x point))
  apply First.opt
  exact First.seq right (First.group (first_integer y ends))

end Integer

section Languages
variable {u : List Char} {n : Nat}

theorem lang_plus {kind : Char → Bool} (lang : (plus kind).Lang u) : ∀ c ∈ u, kind c = true := by
  obtain ⟨v, w, rfl, ⟨c, rfl, of⟩, more⟩ := lang
  rw [List.singleton_append, List.forall_mem_cons]
  exact ⟨of, more⟩

theorem lang_integer (lang : integer.Lang u) : ∀ c ∈ u, isDecimalChar c = true := by
  obtain ⟨v, w, rfl, sign, digits⟩ := lang
  intro c member
  rcases List.mem_append.mp member with front | behind
  · rcases sign with rfl | rfl
    · cases front
    · rw [List.mem_singleton.mp front]
      decide
  · exact isDecimalChar_of_isDigit (lang_plus digits c behind)

/-- An argument that a stick can have. -/
def IsArgument (w : List Char) : Prop := ∀ c ∈ w, isWhite c = true ∨ isDecimalChar c = true

theorem lang_comma_integer {r : Regex} (same : ∀ u, r.Lang u → integer.Lang u) (lang : (seq comma r).Lang u) :
    ∃ w, u = ',' :: w ∧ IsArgument w := by
  obtain ⟨v, w, rfl, ⟨s, t, rfl, rfl, blanks⟩, int⟩ := lang
  refine ⟨t ++ w, rfl, fun c member => ?_⟩
  rcases List.mem_append.mp member with blank | number
  · exact .inl (blanks c blank)
  · exact .inr (lang_integer (same w int) c number)

/-- A stick takes up to two arguments. -/
theorem lang_stick (lang : (stick n).Lang u) :
    ∃ ws : List (List Char), u = ws.flatMap (',' :: ·) ∧ ws.length ≤ 2 ∧ ∀ w ∈ ws, IsArgument w := by
  rcases lang with rfl | ⟨v, w, rfl, commas, x, y, rfl, int, more⟩
  · exact ⟨[], rfl, Nat.zero_le 2, nofun⟩
  · obtain ⟨first, text, argument⟩ := @lang_comma_integer (v ++ x) (group n integer) (fun _ lang => lang)
      ⟨v, x, rfl, commas, int⟩
    rcases more with rfl | second
    · refine ⟨[first], ?_, Nat.le_succ 1, List.forall_mem_singleton.mpr argument⟩
      rw [← List.append_assoc, text]
      rfl
    · obtain ⟨w, rfl, argument'⟩ := @lang_comma_integer y (group (n + 1) integer) (fun _ lang => lang) second
      refine ⟨[first, w], ?_, Nat.le_refl 2,
        List.forall_mem_cons.mpr ⟨argument, List.forall_mem_singleton.mpr argument'⟩⟩
      rw [← List.append_assoc, text]
      simp

/-- A call is a number and up to five arguments. -/
theorem lang_inputFlex (lang : rInputFlex.Lang u) :
    ∃ digits : List Char, ∃ bs ss ts : List (List Char),
      u = "input(".toList ++ (digits ++ (bs ++ (ss ++ ts)).flatMap (',' :: ·)) ++ ");".toList ∧
        (∀ c ∈ digits, c.isDigit = true) ∧ bs.length ≤ 1 ∧ ss.length ≤ 2 ∧ ts.length ≤ 2 ∧
        (∀ w ∈ bs, ',' ∉ w ∧ ')' ∉ w) ∧ ∀ w ∈ ss ++ ts, IsArgument w := by
  obtain ⟨call, u, rfl, rfl, digits, u, rfl, count, buttons, u, rfl, names, left, u, rfl, lstick, right, u, rfl,
    rstick, rfl⟩ := lang
  obtain ⟨ss, rfl, short, arguments⟩ := lang_stick lstick
  obtain ⟨ts, rfl, short', arguments'⟩ := lang_stick rstick
  have both : ∀ w ∈ ss ++ ts, IsArgument w := by
    intro w member
    rcases List.mem_append.mp member with first | second
    · exact arguments w first
    · exact arguments' w second
  rcases names with rfl | ⟨v, w, rfl, ⟨s, t, rfl, rfl, blanks⟩, keys⟩
  · refine ⟨digits, [], ss, ts, ?_, lang_plus count, Nat.zero_le 1, short, short', nofun, both⟩
    simp
  · refine ⟨digits, [t ++ w], ss, ts, ?_, lang_plus count, Nat.le_refl 1, short, short', ?_, both⟩
    · simp
    · rw [List.forall_mem_singleton, List.mem_append, List.mem_append, not_or, not_or]
      have key : ∀ c ∈ w, c ≠ ',' ∧ c ≠ ')' := fun c member => of_decide_eq_true (lang_plus keys c member)
      refine ⟨⟨fun blank => ?_, fun within => (key ',' within).1 rfl⟩,
        fun blank => ?_, fun within => (key ')' within).2 rfl⟩
      · exact absurd (blanks ',' blank) (by decide)
      · exact absurd (blanks ')' blank) (by decide)

end Languages

section Buttons
variable {buttons : List (List Char)}

theorem isWhite_of_isButtonChar {c : Char} (button : isButtonChar c = true) : isWhite c = false := by
  simp only [isButtonChar, Bool.or_eq_true, beq_iff_eq] at button
  rcases button with upper | rfl
  · have bounds := toNat_of_isUpper upper
    simp only [isWhite, decide_eq_false_iff_not]
    omega
  · decide

theorem trim_of_solid {text : List Char} (solid : ∀ c ∈ text, isWhite c = false) : trim text = text := by
  have front : text.dropWhile isWhite = text := by
    cases text with
    | nil => rfl
    | cons c text =>
      apply List.dropWhile_cons_of_neg
      rw [solid c List.mem_cons_self]
      decide
  rw [trim, front]
  cases text using List.reverseRecOn with
  | nil => rfl
  | append_singleton text c =>
    apply List.rdropWhile_concat_neg
    rw [solid c (List.mem_append_right text List.mem_cons_self)]
    decide

theorem foldl_toSet {items set : List (List Char)} (nodup : (set ++ items).Nodup) :
    items.foldl (fun set item => if item ∈ set then set else set ++ [item]) set = set ++ items := by
  induction items generalizing set with
  | nil => exact (List.append_nil set).symm
  | cons item items ih =>
    have fresh : item ∉ set := fun member =>
      (List.nodup_append.mp nodup).2.2 item member item List.mem_cons_self rfl
    have rest : (set ++ [item] ++ items).Nodup := by rwa [List.append_assoc]
    rw [List.foldl_cons, if_neg fresh, ih rest, List.append_assoc]
    rfl

theorem toSet_of_nodup (nodup : buttons.Nodup) : toSet buttons = buttons := foldl_toSet nodup

theorem bar_not_mem (of : ∀ btn ∈ buttons, btn ∈ BUTTONS) : ∀ btn ∈ buttons, '|' ∉ btn := by
  have names : ∀ btn ∈ BUTTONS, '|' ∉ btn := by decide
  intro btn member
  exact names btn (of btn member)

theorem buttonsText_cons (of : ∀ btn ∈ buttons, btn ∈ BUTTONS) : ∃ c more, buttonsText buttons = c :: more := by
  have names : ∀ btn ∈ BUTTONS, btn ≠ [] := by decide
  cases buttons with
  | nil => exact ⟨'N', _, rfl⟩
  | cons btn buttons =>
    obtain ⟨c, more, rfl⟩ := List.exists_cons_of_ne_nil (names btn (of btn List.mem_cons_self))
    cases buttons with
    | nil => exact ⟨c, more, @List.intercalate_singleton _ ['|'] _⟩
    | cons next buttons => exact ⟨c, _, List.intercalate_cons_cons⟩

/-- The text for some buttons is not the text for none. -/
theorem buttonsText_ne (of : ∀ btn ∈ buttons, btn ∈ BUTTONS) (some_ : buttons ≠ []) :
    buttonsText buttons ≠ "NONE".toList := by
  intro same
  have pieces := List.splitOn_intercalate '|' (bar_not_mem of) some_
  have none_ : ("NONE".toList).splitOn '|' = ["NONE".toList] := by decide
  rw [buttonsText, if_neg some_] at same
  rw [same, none_] at pieces
  have known : "NONE".toList ∈ BUTTONS := of _ (by rw [← pieces]; exact List.mem_cons_self)
  exact absurd known (by decide)

/-- What `readInput` makes of the second argument. -/
theorem buttons_read (of : ∀ btn ∈ buttons, btn ∈ BUTTONS) (nodup : buttons.Nodup) :
    buttonsText buttons ≠ "0".toList ∧
      toSet (if buttonsText buttons = "NONE".toList then [] else (buttonsText buttons).splitOn '|') = buttons := by
  constructor
  · intro same
    have button := isButtonChar_of_mem of '0' (by rw [same]; exact List.mem_cons_self)
    exact absurd button (by decide)
  · by_cases none_ : buttons = []
    · subst none_
      rfl
    · rw [if_neg (buttonsText_ne of none_), buttonsText, if_neg none_,
        List.splitOn_intercalate '|' (bar_not_mem of) none_]
      exact toSet_of_nodup nodup

end Buttons

section Input
variable (duration : N.Number) (buttons : List (List Char)) (lstick rstick : Stick N)

/-- What stands behind the commas of the call. -/
def inputArgs : List (List Char) :=
  [' ' :: buttonsText buttons, ' ' :: N.text lstick.x, N.text lstick.y, ' ' :: N.text rstick.x, N.text rstick.y]

def inputLine : List Char :=
  "input(".toList ++ (N.text duration ++ (inputArgs buttons lstick rstick).flatMap (',' :: ·)) ++ ");".toList

theorem inputLine_eq : inputLine duration buttons lstick rstick = "input(".toList ++
    (N.text duration ++ (inputArgs buttons lstick rstick).flatMap (',' :: ·)) ++ ");".toList := rfl

theorem code_input :
    (Frame.input duration buttons lstick rstick).code = [inputLine duration buttons lstick rstick] := by
  simp only [Frame.code, inputLine_eq, inputArgs, stickText, List.flatMap_cons, List.flatMap_nil, List.append_assoc,
    List.cons_append, List.append_nil]
  rfl

variable {duration buttons lstick rstick} {c : Char}

theorem splitOn_arguments {w : List Char} {ws : List (List Char)} (first : ',' ∉ w) (later : ∀ v ∈ ws, ',' ∉ v) :
    (w ++ ws.flatMap (',' :: ·)).splitOn ',' = w :: ws := by
  induction ws generalizing w with
  | nil => rw [List.flatMap_nil, List.append_nil, List.splitOn_eq_singleton first]
  | cons v ws ih =>
    rw [List.forall_mem_cons] at later
    rw [List.flatMap_cons, List.cons_append, List.splitOn_append_cons_self_of_not_mem first, ih later.1 later.2]

theorem not_mem_inputArgs (of : ∀ btn ∈ buttons, btn ∈ BUTTONS) (other : isNumberChar c = false)
    (button : isButtonChar c = false) (apart : c ≠ ' ') : ∀ w ∈ inputArgs buttons lstick rstick, c ∉ w := by
  have number (x : N.Number) : c ∉ N.text x := not_mem_text other x
  have keys : c ∉ buttonsText buttons := not_mem_buttonsText of button
  intro w member
  simp only [inputArgs, List.mem_cons, List.not_mem_nil, or_false] at member
  rcases member with rfl | rfl | rfl | rfl | rfl
  all_goals simp [number, keys, apart]

theorem not_mem_flatMap {ws : List (List Char)} (without : ∀ w ∈ ws, c ∉ w) (apart : c ≠ ',') :
    c ∉ ws.flatMap (',' :: ·) := by
  intro member
  obtain ⟨w, own, within⟩ := List.mem_flatMap.mp member
  rcases List.mem_cons.mp within with rfl | inside
  · exact apart rfl
  · exact without w own inside

theorem not_mem_inputLine (of : ∀ btn ∈ buttons, btn ∈ BUTTONS) (other : isNumberChar c = false)
    (button : isButtonChar c = false) (apart : c ∉ "input(, );".toList) :
    c ∉ inputLine duration buttons lstick rstick := by
  simp only [String.reduceToList, List.mem_cons, List.not_mem_nil, or_false, not_or] at apart
  have args := not_mem_flatMap (@not_mem_inputArgs _ _ lstick rstick c of other button (by tauto)) (by tauto)
  simp only [inputLine_eq, List.mem_append, not_or]
  exact ⟨⟨by simp; tauto, not_mem_text other duration, args⟩, by simp; tauto⟩

theorem trim_inputLine : trim (inputLine duration buttons lstick rstick) = inputLine duration buttons lstick rstick := by
  have text : inputLine duration buttons lstick rstick =
      "input(".toList ++ (N.text duration ++ (inputArgs buttons lstick rstick).flatMap (',' :: ·)) ++ [')'] ++ [';'] := by
    rw [inputLine_eq, List.append_assoc _ [')']]
    rfl
  rw [text]
  exact trim_solid (c := 'i') rfl (by decide) (by decide)

/-- The tests before the last one do not take the line of an input. -/
theorem passes_inputLine (of : ∀ btn ∈ buttons, btn ∈ BUTTONS) : Passes 8 (inputLine duration buttons lstick rstick) := by
  have without {r : Regex} (c : Char) (w : List Char) (checks : r.hasWord w = true ∧ c ∈ w ∧
      isNumberChar c = false ∧ isButtonChar c = false ∧ c ∉ "input(, );".toList) :
      r.exec (inputLine duration buttons lstick rstick) = none := by
    obtain ⟨needs, inWord, other, button, apart⟩ := checks
    exact exec_eq_none_of_char c needs inWord (not_mem_inputLine of other button apart)
  have solid : inputLine duration buttons lstick rstick ≠ [] := List.cons_ne_nil _ _
  have main_ := (Passes.zero solid).next rfl (@without rMainStart '\x7b' "\x7b".toList (by decide))
  have brace := main_.next rfl (@without rLoopEnd '\x7d' "\x7d".toList (by decide))
  have file := brace.next rfl (@without rExecFile '"' "\"".toList (by decide))
  have clear := file.next rfl (@without rGyroClear 'c' "clearGyro();".toList (by decide))
  have rot := clear.next rfl (@without rGyroRot 's' "setGyroRotation(Matrix33f::".toList (by decide))
  have pos := rot.next rfl (@without rPosRot 's' "Player.setPosRot(".toList (by decide))
  have slashes := pos.next rfl (@without rComment '/' "//".toList (by decide))
  exact slashes.next rfl (@without rLoopStart 'r' "for".toList (by decide))

/-- Only a line without exponents is a call. -/
theorem clean_of_exec_input (of : ∀ btn ∈ buttons, btn ∈ BUTTONS) {m : Match}
    (found : rInputFlex.exec (inputLine duration buttons lstick rstick) = some m) :
    (Frame.input duration buttons lstick rstick).Clean := by
  have number {c : Char} (other : isNumberChar c = false) : c ∉ N.text duration := not_mem_text other duration
  have args {c : Char} (checks : isNumberChar c = false ∧ isButtonChar c = false ∧ c ≠ ' ') :
      ∀ w ∈ inputArgs buttons lstick rstick, c ∉ w := not_mem_inputArgs of checks.1 checks.2.1 checks.2.2
  have body {c : Char} (checks : isNumberChar c = false ∧ isButtonChar c = false ∧ c ≠ ' ' ∧ c ≠ ',') :
      c ∉ N.text duration ++ (inputArgs buttons lstick rstick).flatMap (',' :: ·) := by
    rw [List.mem_append, not_or]
    exact ⟨number checks.1, not_mem_flatMap (args ⟨checks.1, checks.2.1, checks.2.2.1⟩) checks.2.2.2⟩
  obtain ⟨before, u, split_, lang⟩ := lang_of_search found
  obtain ⟨digits, bs, ss, ts, rfl, count, short, short', short'', names, arguments⟩ := lang_inputFlex lang
  -- the brackets stand where they stand in the line
  have opened : "input".toList ++ '(' :: (N.text duration ++ (inputArgs buttons lstick rstick).flatMap (',' :: ·) ++
        ");".toList) =
      (before ++ "input".toList) ++ '(' :: (digits ++ (bs ++ (ss ++ ts)).flatMap (',' :: ·) ++ ");".toList ++ m.rest) := by
    have line : inputLine duration buttons lstick rstick = "input".toList ++
        '(' :: (N.text duration ++ (inputArgs buttons lstick rstick).flatMap (',' :: ·) ++ ");".toList) := by
      rw [inputLine_eq, List.append_assoc]
      rfl
    rw [← line, split_]
    simp only [List.append_assoc]
    rfl
  obtain ⟨-, -, inner⟩ := (List.append_cons_inj_of_notMem
    (fun member => absurd member (by decide)) (by
      rw [List.mem_append, not_or]
      exact ⟨body (by decide), by decide⟩)).mp opened
  rw [List.append_assoc (digits ++ _)] at inner
  obtain ⟨same, -, -⟩ := (List.append_cons_inj_of_notMem (body (by decide)) (by decide)).mp inner
  have later : ∀ w ∈ bs ++ (ss ++ ts), ',' ∉ w := by
    intro w member
    rcases List.mem_append.mp member with name | argument
    · exact (names w name).1
    · intro within
      exact absurd (arguments w argument ',' within) (by decide)
  have pieces := congrArg (List.splitOn ',') same
  rw [splitOn_arguments (number (by decide)) (args (by decide)),
    splitOn_arguments (fun member => absurd (count ',' member) (by decide)) later] at pieces
  obtain ⟨printed, rest⟩ := List.cons.inj pieces
  -- five arguments leave one for the buttons
  have five := congrArg List.length rest
  rw [List.length_append, List.length_append] at five
  have one : bs.length = [' ' :: buttonsText buttons].length := by
    simp only [inputArgs, List.length_cons, List.length_nil] at five ⊢
    omega
  have sticks : [' ' :: N.text lstick.x, N.text lstick.y, ' ' :: N.text rstick.x, N.text rstick.y] = ss ++ ts :=
    (List.append_inj (show [' ' :: buttonsText buttons] ++ _ = bs ++ (ss ++ ts) from rest) one.symm).2
  rw [← sticks] at arguments
  simp only [List.forall_mem_cons] at arguments
  obtain ⟨lx, ly, rx, ry, -⟩ := arguments
  have digits_ : ∀ c ∈ N.text duration, c.isDigit = true := by
    rw [printed]
    exact count
  exact ⟨counts_of_isDigit digits_,
    ⟨plain_of_isWhite_or fun c member => lx c (List.mem_cons_of_mem _ member), plain_of_isWhite_or ly⟩,
    plain_of_isWhite_or fun c member => rx c (List.mem_cons_of_mem _ member), plain_of_isWhite_or ry⟩

theorem readInput_of_clean (shaped : (Frame.input duration buttons lstick rstick).Shaped)
    (clean : (Frame.input duration buttons lstick rstick).Clean) :
    ∃ m, rInputFlex.exec (inputLine duration buttons lstick rstick) = some m ∧
      readInput m = .push (.input duration buttons lstick rstick) := by
  obtain ⟨⟨nodup, of⟩, left, right⟩ := shaped
  obtain ⟨counts, plain, plain'⟩ := clean
  have lx := isInteger_text left.1 plain.1
  have ly := isInteger_text left.2 plain.2
  have rx := isInteger_text right.1 plain'.1
  have ry := isInteger_text right.2 plain'.2
  have keys : ∀ c ∈ buttonsText buttons, decide (c ≠ ',' ∧ c ≠ ')') = true := by
    intro c member
    rw [decide_eq_true_eq]
    constructor
    · rintro rfl
      exact absurd (isButtonChar_of_mem of ',' member) (by decide)
    · rintro rfl
      exact absurd (isButtonChar_of_mem of ')' member) (by decide)
  obtain ⟨key, names, printed⟩ : ∃ key names, buttonsText buttons = key :: names := buttonsText_cons of
  have solid (rest : List Char) : Ends isWhite (buttonsText buttons ++ rest) := by
    rw [printed]
    exact ends_cons (isWhite_of_isButtonChar (isButtonChar_of_mem of key (by rw [printed]; exact List.mem_cons_self))) _
  have some_ : buttonsText buttons ≠ [] := by
    rw [printed]
    exact List.cons_ne_nil key names
  have blank : ∀ c ∈ [' '], isWhite c = true := List.forall_mem_singleton.mpr rfl
  have line : inputLine duration buttons lstick rstick = "input(".toList ++ (N.text duration ++
      ',' :: ([' '] ++ (buttonsText buttons ++ ',' :: ' ' :: (N.text lstick.x ++ ',' :: (N.text lstick.y ++
        ',' :: ' ' :: (N.text rstick.x ++ ',' :: (N.text rstick.y ++ (");".toList ++ [])))))))) := by
    simp only [inputLine_eq, inputArgs, List.flatMap_cons, List.flatMap_nil, List.append_assoc, List.cons_append,
      List.nil_append, List.append_nil]
  have first : First (inputLine duration buttons lstick rstick).length rInputFlex
      ⟨inputLine duration buttons lstick rstick, fun _ => none⟩
      (Match.capture 6 (N.text rstick.y) (Match.capture 5 (N.text rstick.x) (Match.capture 4 (N.text lstick.y)
        (Match.capture 3 (N.text lstick.x) (Match.capture 2 (buttonsText buttons) (Match.capture 1 (N.text duration)
          ⟨[], fun _ => none⟩)))))) := by
    generalize (inputLine duration buttons lstick rstick).length = length
    rw [line]
    apply First.seq (first_word _ _ _)
    apply First.seq (First.group (first_plus counts.digits.1 counts.digits.2 (ends_cons (by decide) _)))
    apply First.seq (First.opt (First.seq (first_comma blank (solid _))
      (First.group (first_plus some_ keys (ends_cons (by decide) _)))))
    apply First.seq (first_stick lx ly (ends_cons (by decide) _))
    apply First.seq (first_stick rx ry (ends_cons (by decide) _))
    exact first_word _ _ _
  obtain ⟨notZero, read⟩ := buttons_read of nodup
  have trimmed := trim_of_solid fun c member => isWhite_of_isButtonChar (isButtonChar_of_mem of c member)
  refine ⟨_, first.exec, ?_⟩
  simp only [readInput, cap, capInt, Match.capture, Nat.reduceEqDiff, reduceIte,
    Option.getD_some, trimmed, if_neg notZero, read,
    parseInt_text counts.1.whole counts.2, parseInt_text left.1 plain.1, parseInt_text left.2 plain.2,
    parseInt_text right.1 plain'.1, parseInt_text right.2 plain'.2]

theorem readLine_input (shaped : (Frame.input duration buttons lstick rstick).Shaped)
    (clean : (Frame.input duration buttons lstick rstick).Clean) :
    readLine (trim (inputLine duration buttons lstick rstick)) = .push (.input duration buttons lstick rstick) := by
  obtain ⟨m, found, read⟩ := readInput_of_clean shaped clean
  rw [trim_inputLine, readLine_inputFlex (passes_inputLine shaped.1.2) found, read]

/-- With an exponent the line is passed over. -/
theorem readLine_input_unclean (shaped : (Frame.input duration buttons lstick rstick).Shaped)
    (unclean : ¬(Frame.input duration buttons lstick rstick).Clean) :
    readLine (N := N) (trim (inputLine duration buttons lstick rstick)) = .nothing := by
  rw [trim_inputLine]
  cases found : rInputFlex.exec (inputLine duration buttons lstick rstick) with
  | none => exact readLine_nothing ((passes_inputLine shaped.1.2).next rfl found)
  | some m => exact absurd (clean_of_exec_input shaped.1.2 found) unclean

end Input

end LotusKit.Editor

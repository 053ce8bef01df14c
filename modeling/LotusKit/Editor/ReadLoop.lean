import LotusKit.Editor.ReadInput

/-! The line at the start of a loop: it is read as the frame unless the count has an exponent. -/

namespace LotusKit.Editor
open LotusKit.Lib LotusKit.Lib.Scan LotusKit.Lib.Regex Numbers

variable {N : Numbers} {c : Char} {variable_ : List Char} {count : N.Number}

section Characters

theorem isWhite_of_isWordChar (ofWord : isWordChar c = true) : isWhite c = false := by
  have kinds : ((c.isUpper || c.isLower) || c.isDigit || c == '_') = true := ofWord
  simp only [Bool.or_eq_true, beq_iff_eq] at kinds
  rcases kinds with ((upper | lower) | digit) | rfl
  · have bounds := toNat_of_isUpper upper
    simp only [isWhite, decide_eq_false_iff_not]
    omega
  · have bounds := toNat_of_isLower lower
    simp only [isWhite, decide_eq_false_iff_not]
    omega
  · exact not_isWhite_of_isDigit digit
  · decide

theorem not_mem_name (name : Identifier variable_) (other : isWordChar c = false) : c ∉ variable_ := by
  intro member
  rw [name.1 c member] at other
  cases other

end Characters

section Line
variable (variable_ count)

/-- The line behind the bracket, as far as `<`. -/
def loopHead : List Char := "int ".toList ++ variable_ ++ "=0; ".toList ++ variable_ ++ " ".toList

/-- From `<` to the second semicolon. -/
def loopBound : List Char := ' ' :: N.text count

/-- As far as the closing bracket. -/
def loopStep : List Char := ' ' :: (variable_ ++ "++".toList)

theorem loopHead_eq : loopHead variable_ = "int ".toList ++ variable_ ++ "=0; ".toList ++ variable_ ++ " ".toList := rfl

def loopLine : List Char :=
  "for".toList ++ '(' :: (loopHead variable_ ++ '<' :: (loopBound count ++ ';' :: (loopStep variable_ ++
    ')' :: " \x7b".toList)))

theorem loopLine_eq : loopLine variable_ count = "for".toList ++ '(' :: (loopHead variable_ ++ '<' :: (loopBound count ++
    ';' :: (loopStep variable_ ++ ')' :: " \x7b".toList))) := rfl

theorem code_loop_start : (Frame.loop_start variable_ count).code = [loopLine variable_ count] := by
  simp only [Frame.code, loopLine_eq, loopHead_eq, loopBound, loopStep, List.append_assoc, List.cons_append]
  rfl

variable {variable_ count}

theorem not_mem_loopHead (name : Identifier variable_) (checks : isWordChar c = false ∧ c ∉ "int =0; ".toList) :
    c ∉ loopHead variable_ := by
  obtain ⟨other, apart⟩ := checks
  have piece {w : List Char} (part : w ⊆ "int =0; ".toList) : c ∉ w := fun member => apart (part member)
  have own := not_mem_name name other
  simp only [loopHead_eq, List.mem_append, not_or]
  exact ⟨⟨⟨⟨piece (by decide), own⟩, piece (by decide)⟩, own⟩, piece (by decide)⟩

theorem not_mem_loopBound (checks : isNumberChar c = false ∧ c ≠ ' ') : c ∉ loopBound count := by
  rw [loopBound, List.mem_cons, not_or]
  exact ⟨checks.2, not_mem_text checks.1 count⟩

theorem not_mem_loopStep (name : Identifier variable_) (checks : isWordChar c = false ∧ c ≠ ' ' ∧ c ∉ "++".toList) :
    c ∉ loopStep variable_ := by
  rw [loopStep, List.mem_cons, not_or, List.mem_append, not_or]
  exact ⟨checks.2.1, not_mem_name name checks.1, checks.2.2⟩

theorem not_mem_loopLine (name : Identifier variable_) (checks : isWordChar c = false ∧ isNumberChar c = false ∧
    c ∉ "for(int =0; <++) \x7b".toList) : c ∉ loopLine variable_ count := by
  obtain ⟨other, number, apart⟩ := checks
  have piece {w : List Char} (part : w ⊆ "for(int =0; <++) \x7b".toList) : c ∉ w := fun member => apart (part member)
  have one {d : Char} (part : d ∈ "for(int =0; <++) \x7b".toList) : c ≠ d := fun same => apart (same ▸ part)
  have head := not_mem_loopHead name ⟨other, piece (by decide)⟩
  have bound := @not_mem_loopBound N c count ⟨number, one (by decide)⟩
  have step := not_mem_loopStep name ⟨other, one (by decide), piece (by decide)⟩
  rw [loopLine_eq]
  simp only [List.mem_append, List.mem_cons, not_or]
  exact ⟨piece (by decide), one (by decide), head, one (by decide), bound, one (by decide), step, one (by decide),
    piece (by decide)⟩

theorem trim_loopLine : trim (loopLine variable_ count) = loopLine variable_ count := by
  have text : loopLine variable_ count = "for".toList ++ '(' :: (loopHead variable_ ++ '<' :: (loopBound count ++
      ';' :: (loopStep variable_ ++ ')' :: " ".toList))) ++ ['\x7b'] := by
    simp only [loopLine_eq, List.append_assoc, List.cons_append]
    rfl
  rw [text]
  exact trim_solid (c := 'f') rfl (by decide) (by decide)

end Line

/-- Behind the only bracket the brackets of `main` are not closed. -/
theorem exec_main_eq_none {before behind : List Char} {d : Char} (once : '(' ∉ before ∧ '(' ∉ behind)
    (first : behind.head? = some d) (solid : isWhite d = false) (goesOn : d ≠ ')') :
    rMainStart.exec (before ++ '(' :: behind) = none := by
  obtain ⟨more, rfl⟩ := List.head?_eq_some_iff.mp first
  apply exec_eq_none
  intro front u after split_ lang
  obtain ⟨v, w, rfl, -, brackets⟩ := @lang_cat_append u [word "void".toList, plus isWhite, word "main".toList, white]
    [word "(".toList, white, word ")".toList, white, word "\x7b".toList] (List.cons_ne_nil _ _) lang
  obtain ⟨_, _, rfl, rfl, blanks, _, rfl, white_, _, rest, rfl, rfl, -⟩ := brackets
  have text : before ++ '(' :: d :: more = (front ++ v) ++ '(' :: (blanks ++ ')' :: (rest ++ after)) := by
    rw [split_]
    simp
  obtain ⟨-, -, same⟩ := (List.append_cons_inj_of_notMem once.1 once.2).mp text
  cases blanks with
  | nil => exact goesOn (List.cons.inj same).1
  | cons e blanks =>
    have blank := white_ e List.mem_cons_self
    rw [← (List.cons.inj same).1, solid] at blank
    cases blank

section Read

/-- Where the only closing bracket is not followed by a semicolon, there is no call. -/
theorem exec_loopLine_of_call (name : Identifier variable_) {r : Regex} (front : List Char)
    (needs : r.hasWord (front ++ [')', ';']) = true) : r.exec (loopLine variable_ count) = none := by
  have text : loopLine variable_ count = "for".toList ++ '(' :: (loopHead variable_ ++ '<' :: (loopBound count ++
      ';' :: loopStep variable_)) ++ ')' :: " \x7b".toList := by
    simp only [loopLine_eq, List.append_assoc, List.cons_append]
  rw [text]
  apply exec_eq_none_of_around needs
  · simp only [List.mem_append, List.mem_cons, not_or]
    exact ⟨⟨by decide, by decide, not_mem_loopHead name (by decide), by decide, not_mem_loopBound (by decide), by decide,
      not_mem_loopStep name (by decide)⟩, by decide⟩
  · intro around
    exact absurd around.2 (by decide)

/-- The tests before the one for loops do not take the line of a loop. -/
theorem passes_loopLine (name : Identifier variable_) : Passes 7 (loopLine variable_ count) := by
  have without {r : Regex} (c : Char) (w : List Char) (checks : r.hasWord w = true ∧ c ∈ w ∧
      isWordChar c = false ∧ isNumberChar c = false ∧ c ∉ "for(int =0; <++) \x7b".toList) :
      r.exec (loopLine variable_ count) = none := by
    obtain ⟨needs, inWord, checks⟩ := checks
    exact exec_eq_none_of_char c needs inWord (not_mem_loopLine name checks)
  have bracket : '(' ∉ loopHead variable_ ++ '<' :: (loopBound count ++ ';' :: (loopStep variable_ ++ ')' :: " \x7b".toList)) := by
    simp only [List.mem_append, List.mem_cons, not_or]
    exact ⟨not_mem_loopHead name (by decide), by decide, not_mem_loopBound (by decide), by decide,
      not_mem_loopStep name (by decide), by decide, by decide⟩
  have solid : loopLine variable_ count ≠ [] := List.cons_ne_nil _ _
  have main_ := (Passes.zero solid).next rfl (exec_main_eq_none ⟨by decide, bracket⟩ rfl (by decide) (by decide))
  have brace := main_.next rfl (@without rLoopEnd '\x7d' "\x7d".toList (by decide))
  have file := brace.next rfl (@without rExecFile '"' "\"".toList (by decide))
  have clear := file.next rfl (@exec_loopLine_of_call N variable_ count name rGyroClear "clearGyro(".toList (by decide))
  have rot := clear.next rfl (@exec_loopLine_of_call N variable_ count name rGyroRot [] (by decide))
  have pos := rot.next rfl (@exec_loopLine_of_call N variable_ count name rPosRot [] (by decide))
  exact pos.next rfl (@without rComment '/' "//".toList (by decide))

/-- No blank is taken where there is none. -/
theorem first_noBlank {length : Nat} {rest : List Char} {caps : Nat → Option (List Char)} (ends : Ends isWhite rest) :
    First length white ⟨rest, caps⟩ ⟨rest, caps⟩ :=
  @first_star _ _ _ [] rest (List.forall_mem_nil _) ends

theorem first_blank {length : Nat} {rest : List Char} {caps : Nat → Option (List Char)} (ends : Ends isWhite rest) :
    First length white ⟨' ' :: rest, caps⟩ ⟨rest, caps⟩ :=
  @first_star _ _ _ [' '] rest (List.forall_mem_singleton.mpr rfl) ends

theorem exec_loopLine (name : Identifier variable_) (counts : N.Counts count) :
    rLoopStart.exec (loopLine variable_ count) =
      some (Match.capture 2 (N.text count) (Match.capture 1 variable_ ⟨[], fun _ => none⟩)) := by
  obtain ⟨some_, digits⟩ := counts.digits
  obtain ⟨first, more, own⟩ : ∃ first more, variable_ = first :: more := by
    obtain ⟨first, head, -⟩ := name.2
    exact ⟨first, List.head?_eq_some_iff.mp head⟩
  have solid (rest : List Char) : Ends isWhite (variable_ ++ rest) := by
    rw [own]
    exact ends_cons (isWhite_of_isWordChar (name.1 first (by rw [own]; exact List.mem_cons_self))) _
  have number (rest : List Char) : Ends isWhite (N.text count ++ rest) := by
    obtain ⟨digit, behind, text⟩ := List.exists_cons_of_ne_nil some_
    rw [text]
    exact ends_cons (not_isWhite_of_isDigit (digits digit (by rw [text]; exact List.mem_cons_self))) _
  have named : variable_ ≠ [] := by
    rw [own]
    exact List.cons_ne_nil first more
  have line : loopLine variable_ count = "for".toList ++ ("(".toList ++ ("int".toList ++ (" ".toList ++ (variable_ ++
      ("=".toList ++ ("0".toList ++ (";".toList ++ (' ' :: (variable_ ++ (' ' :: ("<".toList ++ (' ' :: (N.text count ++
        (";".toList ++ (' ' :: (variable_ ++ ("++".toList ++ (")".toList ++ (' ' :: ("\x7b".toList ++ [])))))))))))))))))))) := by
    simp only [loopLine_eq, loopHead_eq, loopBound, loopStep, List.append_assoc, List.cons_append]
    rfl
  apply First.exec
  generalize (loopLine variable_ count).length = length
  rw [line]
  apply First.seq (first_word _ _ _)
  apply First.seq (first_noBlank (ends_cons (by decide) _))
  apply First.seq (first_word _ _ _)
  apply First.seq (first_noBlank (ends_cons (by decide) _))
  apply First.seq (first_word _ _ _)
  apply First.seq (first_plus (by decide) (List.forall_mem_singleton.mpr rfl) (solid _))
  apply First.seq (First.group (first_plus named name.1 (ends_cons (by decide) _)))
  apply First.seq (first_noBlank (ends_cons (by decide) _))
  apply First.seq (first_word _ _ _)
  apply First.seq (first_noBlank (ends_cons (by decide) _))
  apply First.seq (first_word _ _ _)
  apply First.seq (first_noBlank (ends_cons (by decide) _))
  apply First.seq (first_word _ _ _)
  apply First.seq (first_blank (solid _))
  apply First.seq (first_backref rfl)
  apply First.seq (first_blank (ends_cons (by decide) _))
  apply First.seq (first_word _ _ _)
  apply First.seq (first_blank (number _))
  apply First.seq (First.group (first_plus some_ digits (ends_cons (by decide) _)))
  apply First.seq (first_noBlank (ends_cons (by decide) _))
  apply First.seq (first_word _ _ _)
  apply First.seq (first_blank (solid _))
  apply First.seq (first_backref rfl)
  apply First.seq (first_word _ _ _)
  apply First.seq (first_noBlank (ends_cons (by decide) _))
  apply First.seq (first_word _ _ _)
  apply First.seq (first_blank (ends_cons (by decide) _))
  exact first_word _ _ _

/-- Only a count without an exponent is one. -/
theorem counts_of_exec_loop (name : Identifier variable_) {m : Match}
    (found : rLoopStart.exec (loopLine variable_ count) = some m) : N.Counts count := by
  obtain ⟨before, u, split_, lang⟩ := lang_of_search found
  obtain ⟨v, w, rfl, -, behind⟩ := @lang_cat_append u [word "for".toList, white, word "(".toList, white, word "int".toList,
    plus isWhite, group 1 (plus isWordChar), white, word "=".toList, white, word "0".toList, white,
    word ";".toList, white, backref 1, white] [word "<".toList, white, group 2 (plus Char.isDigit),
    white, word ";".toList, white, backref 1, word "++".toList, white, word ")".toList, white,
    word "\x7b".toList] (List.cons_ne_nil _ _) lang
  obtain ⟨_, _, rfl, rfl, blanks, _, rfl, white_, digits, _, rfl, number, blanks', _, rfl, white', _, rest, rfl, rfl, -⟩ :=
    behind
  -- the sign stands where it stands in the line
  have text : "for".toList ++ '(' :: loopHead variable_ ++ '<' :: (loopBound count ++ ';' :: (loopStep variable_ ++
      ')' :: " \x7b".toList)) =
      (before ++ v) ++ '<' :: (blanks ++ (digits ++ (blanks' ++ ';' :: (rest ++ m.rest)))) := by
    have line : loopLine variable_ count = "for".toList ++ '(' :: loopHead variable_ ++ '<' :: (loopBound count ++
        ';' :: (loopStep variable_ ++ ')' :: " \x7b".toList)) := by
      simp only [loopLine_eq, List.append_assoc, List.cons_append]
    rw [← line, split_]
    simp only [List.append_assoc]
    rfl
  have once : '<' ∉ "for".toList ++ '(' :: loopHead variable_ := by
    simp only [List.mem_append, List.mem_cons, not_or]
    exact ⟨by decide, by decide, not_mem_loopHead name (by decide)⟩
  have once' : '<' ∉ loopBound count ++ ';' :: (loopStep variable_ ++ ')' :: " \x7b".toList) := by
    simp only [List.mem_append, List.mem_cons, not_or]
    exact ⟨not_mem_loopBound (by decide), by decide, not_mem_loopStep name (by decide), by decide, by decide⟩
  obtain ⟨-, -, same⟩ := (List.append_cons_inj_of_notMem once once').mp text
  have kinds : ∀ c ∈ blanks ++ digits ++ blanks', isWhite c = true ∨ c.isDigit = true := by
    intro c member
    rcases List.mem_append.mp member with front | blank
    · rcases List.mem_append.mp front with blank | digit
      · exact .inl (white_ c blank)
      · exact .inr (lang_plus number c digit)
    · exact .inl (white' c blank)
  have separate : ';' ∉ blanks ++ digits ++ blanks' := fun member => absurd (kinds ';' member) (by decide)
  rw [← List.append_assoc digits, ← List.append_assoc blanks, ← List.append_assoc blanks] at same
  obtain ⟨bound, -⟩ := eq_of_append_cons (not_mem_loopBound (by decide)) separate same
  apply counts_of_isDigit
  intro c member
  have kind := kinds c (by rw [← bound]; exact List.mem_cons_of_mem ' ' member)
  rw [isWhite_of_isNumberChar (text_isNumberChar count c member)] at kind
  exact kind.resolve_left (by decide)

theorem readLine_loop_start (shaped : (Frame.loop_start variable_ count).Shaped)
    (clean : (Frame.loop_start variable_ count).Clean) :
    readLine (N := N) (trim (loopLine variable_ count)) = .loopStart variable_ count := by
  have read := readLine_loopStart (N := N) (passes_loopLine shaped.1) (exec_loopLine shaped.1 clean)
  rw [trim_loopLine, read]
  simp only [cap, Match.capture, Nat.reduceEqDiff, reduceIte, Option.getD_some, parseInt_text clean.1.whole clean.2]

/-- With an exponent the line is passed over. -/
theorem readLine_loop_start_unclean (shaped : (Frame.loop_start variable_ count).Shaped)
    (unclean : ¬(Frame.loop_start variable_ count).Clean) :
    readLine (N := N) (trim (loopLine variable_ count)) = .nothing := by
  rw [trim_loopLine]
  cases found : rLoopStart.exec (loopLine variable_ count) with
  | none =>
    have call := @exec_loopLine_of_call N variable_ count shaped.1 rInputFlex [] (by decide)
    exact readLine_nothing (((passes_loopLine shaped.1).next rfl found).next rfl call)
  | some m => exact absurd (counts_of_exec_loop shaped.1 found) unclean

end Read

end LotusKit.Editor

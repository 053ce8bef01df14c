import LotusKit.Editor.ReadGyro

/-! The lines with free text: positions, which are read as what they are, and the names of files
and comments, which can hold what another test takes. -/

namespace LotusKit.Editor
open LotusKit.Lib LotusKit.Lib.Scan LotusKit.Lib.Regex Numbers

variable {N : Numbers} {c : Char}

section Position
variable (x y z : N.Number) (rot : List N.Number)

/-- What stands between the brackets. -/
def positionArgs : List Char := N.text x ++ ((y :: z :: rot).map fun value => ' ' :: N.text value).flatMap (',' :: ·)

def positionLine : List Char := "Player.setPosRot(".toList ++ (positionArgs x y z rot ++ ");".toList)

theorem positionLine_eq :
    positionLine x y z rot = "Player.setPosRot(".toList ++ (positionArgs x y z rot ++ ");".toList) := rfl

theorem intercalate_map_text {values : List N.Number} (some_ : values ≠ []) :
    ", ".toList ++ ", ".toList.intercalate (values.map N.text) =
      (values.map fun value => ' ' :: N.text value).flatMap (',' :: ·) := by
  induction values with
  | nil => exact absurd rfl some_
  | cons value values ih =>
    cases values with
    | nil =>
      rw [List.map_singleton, List.map_singleton, List.intercalate_singleton, List.flatMap_singleton]
      rfl
    | cons next values =>
      rw [List.map_cons, List.map_cons (f := N.text), List.intercalate_cons_cons, ← List.map_cons (f := N.text),
        List.append_assoc, ih (List.cons_ne_nil next values), List.map_cons, List.flatMap_cons]
      rfl

theorem code_pos_rot (angles : rot ≠ []) : (Frame.pos_rot x y z rot).code = [positionLine x y z rot] := by
  have rest := intercalate_map_text angles
  rw [Frame.code, positionLine_eq, positionArgs, List.map_cons, List.map_cons, List.flatMap_cons, List.flatMap_cons, ← rest]
  simp only [List.append_assoc, List.cons_append]
  rfl

variable {x y z rot}

theorem passes_positionLine (angles : rot ≠ []) : Passes 5 (positionLine x y z rot) := by
  have without {r : Regex} (c : Char) (w : List Char) (checks : r.hasWord w = true ∧ c ∈ w ∧ isNumberChar c = false ∧
      c ∉ "Player.setPosRot(, );".toList) : r.exec (positionLine x y z rot) = none := by
    obtain ⟨needs, inWord, other, apart⟩ := checks
    have own : positionLine x y z rot ∈ (Frame.pos_rot x y z rot).code := by
      rw [code_pos_rot x y z rot angles]
      exact List.mem_cons_self
    exact exec_eq_none_of_char c needs inWord (not_mem_posRot other apart x y z rot _ own)
  have solid : positionLine x y z rot ≠ [] := List.cons_ne_nil _ _
  have main_ := (Passes.zero solid).next rfl (@without rMainStart '\x7b' "\x7b".toList (by decide))
  have brace := main_.next rfl (@without rLoopEnd '\x7d' "\x7d".toList (by decide))
  have file := brace.next rfl (@without rExecFile '"' "\"".toList (by decide))
  have clear := file.next rfl (@without rGyroClear 'c' "clearGyro();".toList (by decide))
  exact clear.next rfl (@without rGyroRot 'G' "setGyroRotation(Matrix33f::".toList (by decide))

theorem isDot_of_solid (solid : isWhite c = false) : isDot c = true := by
  simp only [isWhite, decide_eq_false_iff_not] at solid
  have apart (d : Char) (white : isWhite d = true) : c ≠ d := by
    rintro rfl
    simp only [isWhite, decide_eq_true_eq] at white
    exact solid white
  rw [isDot, decide_eq_true_eq]
  refine ⟨apart '\n' (by decide), apart '\r' (by decide), ?_, ?_⟩
  · omega
  · omega

theorem mem_positionArgs (member : c ∈ positionArgs x y z rot) : isNumberChar c = true ∨ c = ',' ∨ c = ' ' := by
  rcases List.mem_append.mp member with front | behind
  · exact .inl (text_isNumberChar x c front)
  · obtain ⟨w, own, within⟩ := List.mem_flatMap.mp behind
    obtain ⟨value, -, rfl⟩ := List.mem_map.mp own
    simp only [List.mem_cons] at within
    rcases within with comma | blank | number
    · exact .inr (.inl comma)
    · exact .inr (.inr blank)
    · exact .inl (text_isNumberChar value c number)

theorem exec_positionLine :
    rPosRot.exec (positionLine x y z rot) = some (Match.capture 1 (positionArgs x y z rot) ⟨[], fun _ => none⟩) := by
  have dots : ∀ c ∈ positionArgs x y z rot ++ ");".toList, isDot c = true := by
    intro c member
    rcases List.mem_append.mp member with inside | closing
    · rcases mem_positionArgs inside with number | rfl | rfl
      · exact isDot_of_solid (isWhite_of_isNumberChar number)
      · decide
      · decide
    · have all : ∀ c ∈ ");".toList, isDot c = true := List.all_eq_true.mp (by decide)
      exact all c closing
  apply First.exec
  generalize (positionLine x y z rot).length = length
  rw [positionLine_eq]
  exact First.seq (first_word _ _ _) (First.groupBefore dots)

theorem trim_blank (text : List Char) : trim (' ' :: text) = trim text := by
  rw [trim, List.dropWhile_cons_of_pos (by decide), trim]

/-- A number is read with blanks around it. -/
theorem parseFloat_trim {x : N.Number} (finite : N.Finite x) :
    N.parseFloat (trim (N.text x)) = x ∧ N.parseFloat (trim (' ' :: N.text x)) = x := by
  have solid := trim_of_solid fun c member => isWhite_of_isNumberChar (text_isNumberChar x c member)
  rw [trim_blank, solid]
  exact ⟨parseFloat_text finite, parseFloat_text finite⟩

theorem readPosRot_positionArgs (shaped : (Frame.pos_rot x y z rot).Shaped) :
    readPosRot (positionArgs x y z rot) = .push (.pos_rot x y z rot) := by
  obtain ⟨finite, nine⟩ := shaped
  have comma (value : N.Number) : ',' ∉ N.text value := not_mem_text (by decide) value
  have later : ∀ w ∈ (y :: z :: rot).map fun value => ' ' :: N.text value, ',' ∉ w := by
    intro w member
    obtain ⟨value, -, rfl⟩ := List.mem_map.mp member
    rw [List.mem_cons, not_or]
    exact ⟨by decide, comma value⟩
  rw [List.forall_mem_cons] at finite
  have values : ((y :: z :: rot).map fun value => ' ' :: N.text value).map (fun s => N.parseFloat (trim s)) =
      y :: z :: rot := by
    rw [List.map_map]
    exact (List.map_congr_left fun value member => (parseFloat_trim (finite.2 value member)).2).trans (List.map_id _)
  rw [readPosRot, positionArgs, splitOn_arguments (comma x) later, List.map_cons, values, (parseFloat_trim finite.1).1]
  simp only [nine, Nat.le_refl, if_true, List.take_of_length_le (Nat.le_of_eq nine)]

theorem trim_positionLine : trim (positionLine x y z rot) = positionLine x y z rot := by
  have text : positionLine x y z rot = "Player.setPosRot(".toList ++ (positionArgs x y z rot ++ ")".toList) ++ [';'] := by
    simp only [positionLine_eq, List.append_assoc]
    rfl
  rw [text]
  exact trim_solid (c := 'P') rfl (by decide) (by decide)

theorem readLine_pos_rot (shaped : (Frame.pos_rot x y z rot).Shaped) :
    readLine (trim (positionLine x y z rot)) = .push (.pos_rot x y z rot) := by
  have angles : rot ≠ [] := by
    rintro rfl
    have none_ : 0 = 9 := shaped.2
    omega
  rw [trim_positionLine, readLine_posRot (passes_positionLine angles) exec_positionLine]
  exact readPosRot_positionArgs shaped

end Position

section Comment
variable {text : List Char}

/-- The line of a comment without blanks around it. -/
def commentLine (text : List Char) : List Char := trim ("// ".toList ++ text)

/-- What `trim` leaves as it is has no blanks around it. -/
theorem solid_of_trimmed (trimmed : trim text = text) (some_ : text ≠ []) :
    (∃ c ∈ text.head?, isWhite c = false) ∧ ∃ front d, text = front ++ [d] ∧ isWhite d = false := by
  have kept : text.dropWhile isWhite = text := by
    apply (List.dropWhile_suffix isWhite).eq_of_length_le
    have lengths := congrArg List.length trimmed
    have shorter := (List.rdropWhile_prefix isWhite (l := text.dropWhile isWhite)).length_le
    rw [trim] at lengths
    omega
  have kept' : text.rdropWhile isWhite = text := by rwa [trim, kept] at trimmed
  constructor
  · obtain ⟨c, more, rfl⟩ := List.exists_cons_of_ne_nil some_
    refine ⟨c, rfl, ?_⟩
    have first := List.dropWhile_eq_self_iff.mp kept (Nat.zero_lt_succ _)
    exact Bool.eq_false_iff.mpr first
  · refine ⟨text.dropLast, text.getLast some_, (List.dropLast_append_getLast some_).symm, ?_⟩
    exact Bool.eq_false_iff.mpr (List.rdropWhile_eq_self_iff.mp kept' some_)

theorem commentLine_eq (trimmed : trim text = text) (some_ : text ≠ []) : commentLine text = "// ".toList ++ text := by
  obtain ⟨front, d, rfl, solid⟩ := (solid_of_trimmed trimmed some_).2
  rw [commentLine, ← List.append_assoc]
  exact trim_solid (c := '/') rfl (by decide) solid

theorem exists_commentLine (trimmed : trim text = text) : ∃ blanks, commentLine text = "//".toList ++ (blanks ++ text) ∧
    (∀ c ∈ blanks, isWhite c = true) ∧ Ends isWhite text := by
  by_cases some_ : text = []
  · subst some_
    exact ⟨[], by decide, List.forall_mem_nil _, ends_nil⟩
  · obtain ⟨c, first, solid⟩ := (solid_of_trimmed trimmed some_).1
    refine ⟨" ".toList, commentLine_eq trimmed some_, List.forall_mem_singleton.mpr rfl, ?_⟩
    exact ends_of_head first solid

/-- The test for comments takes every comment, as far as the end of the line. -/
theorem exec_commentLine (trimmed : trim text = text) : rComment.exec (commentLine text) =
    some (Match.capture 1 (text.takeWhile isDot) ⟨text.dropWhile isDot, fun _ => none⟩) := by
  obtain ⟨blanks, line, white_, ends⟩ := exists_commentLine trimmed
  have dots : ∀ c ∈ text.takeWhile isDot, isDot c = true := fun c => List.mem_takeWhile_imp
  have behind : First (commentLine text).length (seq white (seq (word "//".toList) (seq white (group 1 (star isDot)))))
      ⟨commentLine text, fun _ => none⟩
      (Match.capture 1 (text.takeWhile isDot) ⟨text.dropWhile isDot, fun _ => none⟩) := by
    generalize (commentLine text).length = length
    rw [line]
    apply First.seq (first_noBlank (ends_cons (by decide) _))
    apply First.seq (first_word _ _ _)
    apply First.seq (first_star white_ ends)
    have own := @First.group length 1 (star isDot) (fun _ => none) _ _ (first_star dots (ends_dropWhile isDot text))
    rwa [List.takeWhile_append_dropWhile] at own
  have begun : First (commentLine text).length start ⟨commentLine text, fun _ => none⟩
      ⟨commentLine text, fun _ => none⟩ := first_start rfl
  have whole : First (commentLine text).length rComment ⟨commentLine text, fun _ => none⟩
      (Match.capture 1 (text.takeWhile isDot) ⟨text.dropWhile isDot, fun _ => none⟩) := First.seq begun behind
  exact whole.exec

/-- The brace of a loop is no comment. -/
theorem brace_commentLine (trimmed : trim text = text) : rLoopEnd.exec (commentLine text) = none := by
  obtain ⟨blanks, line, -, -⟩ := exists_commentLine trimmed
  rw [line]
  exact exec_anchored_of_ne (by decide) (by decide)

theorem commentLine_ne_nil (trimmed : trim text = text) : commentLine text ≠ [] := by
  obtain ⟨blanks, line, -, -⟩ := exists_commentLine trimmed
  rw [line]
  exact List.cons_ne_nil _ _

theorem readLine_commentLine (trimmed : trim text = text)
    (fails : ∀ r ∈ [rMainStart, rExecFile, rGyroClear, rGyroRot, rPosRot], r.test (commentLine text) = false) :
    readLine (N := N) (commentLine text) = .push (.comment (text.takeWhile isDot)) := by
  simp only [List.forall_mem_cons] at fails
  obtain ⟨main_, file, clear, rot, pos, -⟩ := fails
  have begun := (Passes.zero (commentLine_ne_nil trimmed)).next rfl (exec_of_test main_)
  have named := (begun.next rfl (brace_commentLine trimmed)).next rfl (exec_of_test file)
  have passes := ((named.next rfl (exec_of_test clear)).next rfl (exec_of_test rot)).next rfl (exec_of_test pos)
  exact readLine_comment passes (exec_commentLine trimmed)

def Frame.isComment : Frame N → Bool
  | comment _ => true
  | _ => false

/-- What the line of a comment is read as: nothing, another frame, or the comment. -/
inductive CommentRead (text : List Char) : Effect N → Prop
  | nothing : CommentRead text .nothing
  | other (f : Frame N) (apart : f.isComment = false) : CommentRead text (.push f)
  | gyro (orientation : List Char) (velocity : Option (N.Number × N.Number × N.Number)) :
    CommentRead text (.gyro orientation velocity)
  | comment
    (fails : ∀ r ∈ [rMainStart, rExecFile, rGyroClear, rGyroRot, rPosRot], r.test (commentLine text) = false) :
    CommentRead text (.push (.comment (text.takeWhile isDot)))

theorem commentRead_posRot (args : List Char) : CommentRead text (readPosRot (N := N) args) := by
  unfold readPosRot
  simp only
  split
  · split
    · exact .other _ rfl
    · exact .nothing
  · exact .nothing

theorem commentRead (trimmed : trim text = text) : CommentRead text (readLine (N := N) (commentLine text)) := by
  by_cases main_ : rMainStart.test (commentLine text) = true
  · rw [readLine_of_main main_]
    exact .nothing
  · have main_ := Bool.eq_false_iff.mpr main_
    have passes := ((Passes.zero (commentLine_ne_nil trimmed)).next rfl (exec_of_test main_)).next rfl
      (brace_commentLine trimmed)
    cases file : rExecFile.exec (commentLine text) with
    | some m =>
      rw [readLine_execFile passes file]
      exact .other _ rfl
    | none =>
      have passes := passes.next rfl file
      by_cases clear : rGyroClear.test (commentLine text) = true
      · rw [readLine_gyroClear passes clear]
        exact .other _ rfl
      · have clear := Bool.eq_false_iff.mpr clear
        have passes := passes.next rfl (exec_of_test clear)
        cases rot : rGyroRot.exec (commentLine text) with
        | some m =>
          rw [readLine_gyroRot passes rot]
          exact .gyro _ _
        | none =>
          have passes := passes.next rfl rot
          cases pos : rPosRot.exec (commentLine text) with
          | some m =>
            rw [readLine_posRot passes pos]
            exact commentRead_posRot _
          | none =>
            rw [readLine_comment (passes.next rfl pos) (exec_commentLine trimmed)]
            apply CommentRead.comment
            simp only [List.forall_mem_cons]
            exact ⟨main_, test_of_none file, clear, test_of_none rot, test_of_none pos, List.forall_mem_nil _⟩

theorem readLine_comment_clean (shaped : (Frame.comment text : Frame N).Shaped) (clean : (Frame.comment text : Frame N).Clean) :
    readLine (N := N) (trim ("// ".toList ++ text)) = .push (.comment text) := by
  have read := readLine_commentLine (N := N) shaped.1 clean.2
  rwa [List.takeWhile_eq_self_iff.mpr clean.1] at read

end Comment

section File
variable {filename : List Char}

def fileLine (filename : List Char) : List Char :=
  "tas::awaitExecFile(\"sdcard:/totk_lotuskit/".toList ++ filename ++ "\");".toList

theorem fileLine_eq (filename : List Char) :
    fileLine filename = "tas::awaitExecFile(\"sdcard:/totk_lotuskit/".toList ++ filename ++ "\");".toList := rfl

theorem trim_fileLine : trim (fileLine filename) = fileLine filename := by
  have text : fileLine filename = "tas::awaitExecFile(\"sdcard:/totk_lotuskit/".toList ++ filename ++ "\")".toList ++ [';'] := by
    rw [fileLine_eq, List.append_assoc _ "\")".toList]
    rfl
  rw [text]
  exact trim_solid (c := 't') rfl (by decide) (by decide)

/-- The call stands behind the name space, where the search gets to. -/
theorem exec_fileLine (some_ : filename ≠ []) (unquoted : '"' ∉ filename) :
    rExecFile.exec (fileLine filename) = some (Match.capture 1 filename ⟨[], fun _ => none⟩) := by
  have all : ∀ c ∈ filename, decide (c ≠ '"') = true := by
    intro c member
    rw [decide_eq_true_eq]
    rintro rfl
    exact unquoted member
  have line : fileLine filename = "tas::".toList ++ ("awaitExecFile(".toList ++ ("\"sdcard:/totk_lotuskit/".toList ++
      (filename ++ ("\"".toList ++ (");".toList ++ []))))) := by
    rw [fileLine_eq, List.append_assoc, List.append_nil]
    rfl
  unfold exec
  generalize (fileLine filename).length = length
  have skip (c : Char) (rest : List Char) (other : expect "awaitExecFile(".toList (c :: rest) = none) :
      search length rExecFile (c :: rest) = search length rExecFile rest :=
    search_cons (results_seq_of_nil (results_word_of_none other))
  rw [line]
  generalize behind : "\"sdcard:/totk_lotuskit/".toList ++ (filename ++ ("\"".toList ++ (");".toList ++ []))) = text
  apply (skip 't' _ (expect_cons_ne (by decide) _ _)).trans
  apply (skip 'a' _ rfl).trans
  apply (skip 's' _ (expect_cons_ne (by decide) _ _)).trans
  apply (skip ':' _ (expect_cons_ne (by decide) _ _)).trans
  apply (skip ':' _ (expect_cons_ne (by decide) _ _)).trans
  apply First.search
  apply First.seq (first_word "awaitExecFile(".toList text _)
  rw [← behind]
  apply First.seq (first_noBlank (ends_cons (by decide) _))
  apply First.seq (first_word _ _ _)
  apply First.seq (First.group (first_plus some_ all (ends_cons (by decide) _)))
  apply First.seq (first_word _ _ _)
  apply First.seq (first_noBlank (ends_cons (by decide) _))
  exact first_word _ _ _

theorem readLine_exec_file (shaped : (Frame.exec_file filename : Frame N).Shaped)
    (clean : (Frame.exec_file filename : Frame N).Clean) :
    readLine (N := N) (trim (fileLine filename)) = .push (.exec_file filename) := by
  have brace : rLoopEnd.exec (fileLine filename) = none := exec_anchored_of_ne (by decide) (by decide)
  have solid : fileLine filename ≠ [] := List.cons_ne_nil _ _
  have main_ := (Passes.zero solid).next rfl (exec_of_test clean.2)
  rw [trim_fileLine]
  exact readLine_execFile (main_.next rfl brace) (exec_fileLine shaped.1 shaped.2)

end File

end LotusKit.Editor

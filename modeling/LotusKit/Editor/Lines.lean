import LotusKit.Editor.Script

/-! What the parser makes of a script, line by line: blanks around a line do not count, every
line gives one frame at most, and the line of `main` gives none. -/

namespace LotusKit.Editor
open LotusKit.Lib LotusKit.Lib.Scan LotusKit.Lib.Regex

section Trim
variable {front rest line : List Char} {c d : Char}

theorem rdropWhile_append (solid : isWhite d = false) :
    (front ++ [d] ++ rest).rdropWhile isWhite = front ++ [d] ++ rest.rdropWhile isWhite := by
  induction rest using List.reverseRecOn with
  | nil =>
    rw [List.append_nil, List.rdropWhile_nil, List.append_nil]
    apply List.rdropWhile_concat_neg
    rw [solid]
    decide
  | append_singleton rest e ih =>
    rw [← List.append_assoc]
    by_cases white : isWhite e = true
    · rw [List.rdropWhile_concat_pos _ _ _ white, List.rdropWhile_concat_pos _ _ _ white, ih]
    · rw [List.rdropWhile_concat_neg _ _ _ white, List.rdropWhile_concat_neg _ _ _ white, List.append_assoc]

/-- What stands before blanks at the end is kept. -/
theorem trim_append (first : (front ++ [d]).head? = some c) (solid : isWhite c = false)
    (solid' : isWhite d = false) : trim (front ++ [d] ++ rest) = front ++ [d] ++ rest.rdropWhile isWhite := by
  obtain ⟨more, text⟩ := List.head?_eq_some_iff.mp first
  have start : (front ++ [d] ++ rest).dropWhile isWhite = front ++ [d] ++ rest := by
    rw [text, List.cons_append]
    apply List.dropWhile_cons_of_neg
    rw [solid]
    decide
  rw [trim, start, rdropWhile_append solid']

theorem trim_solid (first : (front ++ [d]).head? = some c) (solid : isWhite c = false)
    (solid' : isWhite d = false) : trim (front ++ [d]) = front ++ [d] := by
  have kept := @trim_append front [] c d first solid solid'
  rwa [List.append_nil, List.rdropWhile_nil, List.append_nil] at kept

theorem trim_indentation (line : List Char) : trim (indentation ++ line) = trim line := by
  rw [trim, trim, List.dropWhile_append_of_pos (List.all_eq_true.mp (by decide))]

end Trim

variable {N : Numbers}

section MainStart

theorem ends_of_head {kind : Char → Bool} {text : List Char} {c : Char} (first : text.head? = some c)
    (other : kind c = false) : Ends kind text := by
  intro d same
  rw [first] at same
  cases same
  exact other

theorem rMainStart_test (rest : List Char) : rMainStart.test ("void main() \x7b".toList ++ rest) = true := by
  have found : First ("void main() \x7b".toList ++ rest).length rMainStart
      ⟨"void main() \x7b".toList ++ rest, fun _ => none⟩ ⟨rest, fun _ => none⟩ := by
    apply First.seq (first_word "void".toList (" main() \x7b".toList ++ rest) _)
    apply First.seq (@first_plus _ _ _ " ".toList ("main() \x7b".toList ++ rest) (by decide)
      (List.all_eq_true.mp (by decide)) (ends_cons (by decide) _))
    apply First.seq (first_word "main".toList ("() \x7b".toList ++ rest) _)
    apply First.seq (@first_star _ _ _ [] ("() \x7b".toList ++ rest) nofun (ends_cons (by decide) _))
    apply First.seq (first_word "(".toList (") \x7b".toList ++ rest) _)
    apply First.seq (@first_star _ _ _ [] (") \x7b".toList ++ rest) nofun (ends_cons (by decide) _))
    apply First.seq (first_word ")".toList (" \x7b".toList ++ rest) _)
    apply First.seq (@first_star _ _ _ " ".toList ("\x7b".toList ++ rest) (List.all_eq_true.mp (by decide))
      (ends_cons (by decide) _))
    exact first_word "\x7b".toList rest _
  rw [test, found.exec]
  rfl

theorem readLine_of_main {line : List Char} (found : rMainStart.test line = true) :
    readLine (N := N) line = .nothing := by
  unfold readLine
  rw [if_pos found]
  split <;> rfl

/-- The line of `main` is passed over, with all that stands behind the brace. -/
theorem readLine_main (rest : List Char) :
    readLine (N := N) (trim ("void main() \x7b".toList ++ rest)) = .nothing := by
  have trimmed : trim ("void main() \x7b".toList ++ rest) =
      "void main() \x7b".toList ++ rest.rdropWhile isWhite :=
    @trim_append "void main() ".toList rest 'v' '\x7b' rfl (by decide) (by decide)
  rw [trimmed]
  exact readLine_of_main (rMainStart_test _)

end MainStart

section Tests

/-- The tests of a line in the order in which they are made. -/
def tests : List Regex :=
  [rMainStart, rLoopEnd, rExecFile, rGyroClear, rGyroRot, rPosRot, rComment, rLoopStart, rInputFlex]

/-- The line gets past the first `n` tests. -/
structure Passes (n : Nat) (lt : List Char) : Prop where
  solid : lt ≠ []
  fails : ∀ r ∈ tests.take n, r.exec lt = none

variable {lt : List Char} {m : Match} {n : Nat} {r : Regex}

theorem Passes.zero (solid : lt ≠ []) : Passes 0 lt := ⟨solid, List.forall_mem_nil _⟩

theorem Passes.next (passes : Passes n lt) (test : tests[n]? = some r) (fails : r.exec lt = none) : Passes (n + 1) lt := by
  refine ⟨passes.solid, ?_⟩
  rw [List.take_add_one, test, List.forall_mem_append]
  exact ⟨passes.fails, List.forall_mem_singleton.mpr fails⟩

theorem readLine_execFile (passes : Passes 2 lt) (found : rExecFile.exec lt = some m) :
    readLine (N := N) lt = .push (.exec_file (cap m 1)) := by
  obtain ⟨solid, fails⟩ := passes
  simp only [tests, List.take_succ_cons, List.take_zero, List.forall_mem_cons] at fails
  obtain ⟨main_, brace, -⟩ := fails
  simp only [readLine, if_neg solid, test_of_none main_, test_of_none brace, Bool.false_eq_true, if_false, found]

theorem readLine_gyroClear (passes : Passes 3 lt) (found : rGyroClear.test lt = true) :
    readLine (N := N) lt = .push .gyro_clear := by
  obtain ⟨solid, fails⟩ := passes
  simp only [tests, List.take_succ_cons, List.take_zero, List.forall_mem_cons] at fails
  obtain ⟨main_, brace, file, -⟩ := fails
  simp only [readLine, if_neg solid, test_of_none main_, test_of_none brace, Bool.false_eq_true, if_false, file, found,
    if_true]

theorem readLine_gyroRot (passes : Passes 4 lt) (found : rGyroRot.exec lt = some m) :
    readLine (N := N) lt = .gyro (cap m 1) (readVelocity lt) := by
  obtain ⟨solid, fails⟩ := passes
  simp only [tests, List.take_succ_cons, List.take_zero, List.forall_mem_cons] at fails
  obtain ⟨main_, brace, file, clear, -⟩ := fails
  simp only [readLine, if_neg solid, test_of_none main_, test_of_none brace, Bool.false_eq_true, if_false, file,
    test_of_none clear, found]

theorem readLine_posRot (passes : Passes 5 lt) (found : rPosRot.exec lt = some m) :
    readLine (N := N) lt = readPosRot (cap m 1) := by
  obtain ⟨solid, fails⟩ := passes
  simp only [tests, List.take_succ_cons, List.take_zero, List.forall_mem_cons] at fails
  obtain ⟨main_, brace, file, clear, rot, -⟩ := fails
  simp only [readLine, if_neg solid, test_of_none main_, test_of_none brace, Bool.false_eq_true, if_false, file,
    test_of_none clear, rot, found]

theorem readLine_comment (passes : Passes 6 lt) (found : rComment.exec lt = some m) :
    readLine (N := N) lt = .push (.comment (cap m 1)) := by
  obtain ⟨solid, fails⟩ := passes
  simp only [tests, List.take_succ_cons, List.take_zero, List.forall_mem_cons] at fails
  obtain ⟨main_, brace, file, clear, rot, pos, -⟩ := fails
  simp only [readLine, if_neg solid, test_of_none main_, test_of_none brace, Bool.false_eq_true, if_false, file,
    test_of_none clear, rot, pos, found]

theorem readLine_loopStart (passes : Passes 7 lt) (found : rLoopStart.exec lt = some m) :
    readLine (N := N) lt = .loopStart (cap m 1) (N.parseInt (cap m 2)) := by
  obtain ⟨solid, fails⟩ := passes
  simp only [tests, List.take_succ_cons, List.take_zero, List.forall_mem_cons] at fails
  obtain ⟨main_, brace, file, clear, rot, pos, slashes, -⟩ := fails
  simp only [readLine, if_neg solid, test_of_none main_, test_of_none brace, Bool.false_eq_true, if_false, file,
    test_of_none clear, rot, pos, slashes, found]

theorem readLine_inputFlex (passes : Passes 8 lt) (found : rInputFlex.exec lt = some m) :
    readLine (N := N) lt = readInput m := by
  obtain ⟨solid, fails⟩ := passes
  simp only [tests, List.take_succ_cons, List.take_zero, List.forall_mem_cons] at fails
  obtain ⟨main_, brace, file, clear, rot, pos, slashes, loop, -⟩ := fails
  simp only [readLine, if_neg solid, test_of_none main_, test_of_none brace, Bool.false_eq_true, if_false, file,
    test_of_none clear, rot, pos, slashes, loop, found]

/-- A line that no test takes is passed over. -/
theorem readLine_nothing (passes : Passes 9 lt) : readLine (N := N) lt = .nothing := by
  obtain ⟨solid, fails⟩ := passes
  simp only [tests, List.take_succ_cons, List.take_zero, List.forall_mem_cons] at fails
  obtain ⟨main_, brace, file, clear, rot, pos, slashes, loop, call, -⟩ := fails
  simp only [readLine, if_neg solid, test_of_none main_, test_of_none brace, Bool.false_eq_true, if_false, file,
    test_of_none clear, rot, pos, slashes, loop, call]

end Tests

section Count
variable (counts : Frame N → Bool)

/-- A line of this effect can give a frame that counts. -/
def Effect.counted : Effect N → Bool
  | nothing => false
  | loopEnd => counts .loop_end
  | loopStart variable_ count => counts (.loop_start variable_ count)
  | gyro _ _ => true
  | push frame => counts frame

/-- A line gives one frame at most. -/
theorem countP_parseLines (lines : List (List Char)) (loopDepth : Nat) (skip : Bool) :
    (parseLines lines loopDepth skip).countP counts ≤
      lines.countP fun line => (readLine (trim line)).counted counts := by
  induction lines generalizing loopDepth skip with
  | nil => exact Nat.le_refl 0
  | cons line lines ih =>
    rw [List.countP_cons]
    cases skip with
    | true => exact (ih loopDepth false).trans (Nat.le_add_right _ _)
    | false =>
      unfold parseLines
      cases effect : readLine (N := N) (trim line) with
      | nothing => exact (ih loopDepth false).trans (Nat.le_add_right _ _)
      | loopEnd =>
        simp only [Effect.counted]
        split
        · rw [List.countP_cons]
          exact Nat.add_le_add_right (ih (loopDepth - 1) false) _
        · exact (ih loopDepth false).trans (Nat.le_add_right _ _)
      | loopStart variable_ count =>
        simp only [Effect.counted, List.countP_cons]
        exact Nat.add_le_add_right (ih (loopDepth + 1) false) _
      | gyro orientation velocity =>
        simp only [Effect.counted, List.countP_cons]
        apply Nat.add_le_add (ih loopDepth _)
        split
        · exact Nat.le_refl 1
        · exact Nat.zero_le 1
      | push frame =>
        simp only [Effect.counted, List.countP_cons]
        exact Nat.add_le_add_right (ih loopDepth false) _

def isLoopEnd : Frame N → Bool
  | .loop_end => true
  | _ => false

/-- The line can give a frame that is not the end of a loop. -/
def gives (N : Numbers) (line : List Char) : Bool :=
  (readLine (N := N) (trim line)).counted fun f => !isLoopEnd f

end Count

end LotusKit.Editor

import LotusKit.Editor.Decimal
import LotusKit.Editor.ReadText

/-! The script that is broadcast, read back: frame by frame, and which frames come out again. -/

namespace LotusKit.Editor
open LotusKit.Lib LotusKit.Lib.Scan LotusKit.Lib.Regex Numbers

variable {N : Numbers} {f : Frame N} {frames out : List (Frame N)} {line : List Char} {rest : List (List Char)}
  {loopDepth : Nat}

theorem readLine_brace : readLine (N := N) (trim "\x7d".toList) = .loopEnd := rfl

section Steps

theorem parseLines_nothing (read : readLine (N := N) (trim line) = .nothing) :
    parseLines (N := N) (line :: rest) loopDepth false = parseLines rest loopDepth false := by
  rw [parseLines, read]

theorem parseLines_push (read : readLine (trim line) = .push f) :
    parseLines (line :: rest) loopDepth false = f :: parseLines rest loopDepth false := by
  rw [parseLines, read]

/-- How deep the loops are behind a frame. -/
def Frame.depth : Frame N → Nat → Nat
  | loop_start _ _, loopDepth => loopDepth + 1
  | loop_end, loopDepth => loopDepth - 1
  | _, loopDepth => loopDepth

theorem balancedFrom_cons :
    balancedFrom (f :: frames) loopDepth ↔ (isLoopEnd f = true → 0 < loopDepth) ∧ balancedFrom frames (f.depth loopDepth) := by
  cases f with
  | loop_end => simp only [balancedFrom, isLoopEnd, Frame.depth, true_implies]
  | _ => simp only [balancedFrom, isLoopEnd, Frame.depth, Bool.false_eq_true, false_implies, true_and]

theorem lines_single (code : f.code = [line]) : f.lines = [indentation ++ line] := by
  rw [Frame.lines, code, List.map_singleton]

theorem parseLines_single (code : f.code = [line]) (read : readLine (trim line) = .push f) :
    parseLines (f.lines ++ rest) loopDepth false = f :: parseLines rest loopDepth false := by
  rw [lines_single code]
  exact parseLines_push ((congrArg readLine (trim_indentation line)).trans read)

theorem parseLines_skipped (code : f.code = [line]) (read : readLine (N := N) (trim line) = .nothing) :
    parseLines (N := N) (f.lines ++ rest) loopDepth false = parseLines rest loopDepth false := by
  rw [lines_single code]
  exact parseLines_nothing ((congrArg readLine (trim_indentation line)).trans read)

/-- The velocity is looked for on the line behind the one of the orientation. -/
theorem parseLines_gyro {orientation : List Char} {x y z x' y' z' : N.Number}
    (shaped : (Frame.gyro_set orientation x y z).Shaped)
    (velocity : (readVelocity (N := N) (trim (velocityLine x y z))).getD
      (N.ofDecimal false 0 0, N.ofDecimal false 0 0, N.ofDecimal false 0 0) = (x', y', z')) :
    parseLines (N := N) ((Frame.gyro_set orientation x y z).lines ++ rest) loopDepth false =
      .gyro_set orientation x' y' z' :: parseLines rest loopDepth false := by
  have lines : (Frame.gyro_set orientation x y z).lines =
      [indentation ++ orientationLine orientation, indentation ++ velocityLine x y z] := by
    rw [Frame.lines, code_gyro_set, List.map_cons, List.map_singleton]
  have first := readLine_orientation (N := N) shaped.1.1 shaped.1.2
  have second : readLine (N := N) (trim (indentation ++ velocityLine x y z)) = .nothing := by
    rw [trim_indentation]
    exact readLine_velocityLine
  rw [← trim_indentation (orientationLine orientation)] at first
  rw [← trim_indentation (velocityLine x y z)] at velocity
  rw [lines, List.cons_append, parseLines, first]
  simp only [List.singleton_append, List.head?_cons, Option.bind_some, Option.none_or, Option.isNone_none, Bool.true_and,
    velocity]
  cases found : readVelocity (N := N) (trim (indentation ++ velocityLine x y z)) with
  | none => rw [Option.isSome_none, parseLines_nothing second]
  | some v => rw [Option.isSome_some, parseLines]

/-- A frame whose lines are clean is read off them. -/
theorem parseLines_clean (shaped : f.Shaped) (clean : f.Clean) (inLoop : isLoopEnd f = true → 0 < loopDepth) :
    parseLines (f.lines ++ rest) loopDepth false = f :: parseLines rest (f.depth loopDepth) false := by
  cases f with
  | input duration buttons lstick rstick =>
    exact parseLines_single (code_input duration buttons lstick rstick) (readLine_input shaped clean)
  | comment text => exact parseLines_single rfl (readLine_comment_clean shaped clean)
  | loop_start variable_ count =>
    have read := readLine_loop_start shaped clean
    rw [← trim_indentation] at read
    rw [lines_single (code_loop_start variable_ count), List.singleton_append, parseLines, read]
    rfl
  | loop_end =>
    rw [lines_single rfl, List.singleton_append, parseLines, trim_indentation, readLine_brace]
    exact if_pos (inLoop rfl)
  | gyro_set orientation x y z =>
    apply parseLines_gyro shaped
    rw [readVelocity_of_plain shaped.2 clean, Option.getD_some]
  | gyro_clear => exact parseLines_single code_gyro_clear readLine_gyro_clear
  | pos_rot x y z rot =>
    have angles : rot ≠ [] := by
      rintro rfl
      have none_ : 0 = 9 := shaped.2
      omega
    exact parseLines_single (code_pos_rot x y z rot angles) (readLine_pos_rot shaped)
  | exec_file filename => exact parseLines_single rfl (readLine_exec_file shaped clean)

/-- A frame whose lines are not clean does not come out again: if there is such a frame in front,
it is read off the lines behind. -/
theorem parseLines_unclean (shaped : f.Shaped) (unclean : ¬f.Clean)
    (oneLine : ∀ filename, f = .exec_file filename → '\n' ∉ filename)
    (read : parseLines (f.lines ++ rest) loopDepth false = f :: out) :
    parseLines rest loopDepth false = f :: out := by
  cases f with
  | input duration buttons lstick rstick =>
    rwa [parseLines_skipped (code_input duration buttons lstick rstick) (readLine_input_unclean shaped unclean)] at read
  | comment text =>
    have lines : (Frame.comment text : Frame N).lines = [indentation ++ ("// ".toList ++ text)] := lines_single rfl
    have kinds := commentRead (N := N) shaped.1
    rw [lines, List.singleton_append, parseLines, trim_indentation] at read
    rw [commentLine] at kinds
    generalize effect : readLine (N := N) (trim ("// ".toList ++ text)) = e at read kinds
    cases kinds with
    | nothing => exact read
    | other g apart =>
      obtain ⟨rfl, -⟩ := List.cons.inj read
      exact Bool.noConfusion apart
    | gyro orientation velocity => cases (List.cons.inj read).1
    | comment fails =>
      have same := (List.cons.inj read).1
      injection same with all
      exact absurd ⟨List.takeWhile_eq_self_iff.mp all, fails⟩ unclean
  | loop_start variable_ count =>
    rwa [parseLines_skipped (code_loop_start variable_ count) (readLine_loop_start_unclean shaped unclean)] at read
  | loop_end => exact absurd trivial unclean
  | gyro_set orientation x y z =>
    have velocity := readVelocity_of_unclean unclean
    rw [parseLines_gyro shaped (by rw [velocity, Option.getD_none])] at read
    injection read with same
    injection same with _ sameX sameY sameZ
    have zero := N.shortest_zero false 0
    refine absurd ⟨?_, ?_, ?_⟩ unclean
    · rw [← sameX, zero]
      trivial
    · rw [← sameY, zero]
      trivial
    · rw [← sameZ, zero]
      trivial
  | gyro_clear => exact absurd trivial unclean
  | pos_rot x y z rot => exact absurd trivial unclean
  | exec_file filename =>
    have main_ : rMainStart.test (fileLine filename) = true := by
      by_contra other
      exact unclean ⟨oneLine filename rfl, Bool.eq_false_iff.mpr other⟩
    rwa [parseLines_skipped rfl (by rw [← fileLine_eq, trim_fileLine]; exact readLine_of_main main_)] at read

end Steps

section Script

/-- The lines of a frame can give one frame that is not the end of a loop, and that of the end none. -/
theorem countP_lines_le (shaped : f.Shaped) : f.lines.countP (gives N) ≤ if isLoopEnd f then 0 else 1 := by
  cases f with
  | loop_end => exact Nat.le_refl 0
  | gyro_set orientation x y z =>
    have second : gives N (indentation ++ velocityLine x y z) = false := by
      rw [gives, trim_indentation, readLine_velocityLine]
      rfl
    have lines : (Frame.gyro_set orientation x y z).lines =
        [indentation ++ orientationLine orientation, indentation ++ velocityLine x y z] := by
      rw [Frame.lines, code_gyro_set, List.map_cons, List.map_singleton]
    rw [lines, List.countP_cons, List.countP_singleton, second, if_neg Bool.false_ne_true, Nat.zero_add]
    split
    · exact Nat.le_refl 1
    · exact Nat.zero_le 1
  | _ => exact List.countP_le_length

theorem countP_gives_le (shaped : ∀ f ∈ frames, f.Shaped) :
    (frames.flatMap Frame.lines ++ ["\x7d".toList]).countP (gives N) ≤ frames.countP fun f => !isLoopEnd f := by
  have brace : gives N "\x7d".toList = false := rfl
  rw [List.countP_append, List.countP_singleton, brace]
  induction frames with
  | nil => exact Nat.le_refl 0
  | cons f frames ih =>
    rw [List.forall_mem_cons] at shaped
    have own := countP_lines_le shaped.1
    have rest := ih shaped.2
    rw [List.flatMap_cons, List.countP_append, List.countP_cons]
    cases ends : isLoopEnd f with
    | false =>
      rw [ends] at own
      simp only [Bool.false_eq_true, if_false, Bool.not_false, if_true] at own rest ⊢
      omega
    | true =>
      rw [ends] at own
      simp only [Bool.false_eq_true, if_false, Bool.not_true, if_true] at own rest ⊢
      omega

/-- Frames whose lines are clean are read back. -/
theorem parse_of_clean (shaped : ∀ f ∈ frames, f.Shaped) (clean : ∀ f ∈ frames, f.Clean)
    (balanced : balancedFrom frames loopDepth) :
    parseLines (frames.flatMap Frame.lines ++ ["\x7d".toList]) loopDepth false = frames := by
  induction frames generalizing loopDepth with
  | nil =>
    obtain rfl : loopDepth = 0 := balanced
    rfl
  | cons f frames ih =>
    rw [List.forall_mem_cons] at shaped clean
    obtain ⟨inLoop, rest⟩ := balancedFrom_cons.mp balanced
    rw [List.flatMap_cons, List.append_assoc, parseLines_clean shaped.1 clean.1 inLoop, ih shaped.2 clean.2 rest]

/-- Only frames whose lines are clean are read back: the first one that is not would be missing. -/
theorem clean_of_parse (shaped : ∀ f ∈ frames, f.Shaped)
    (oneLine : ∀ filename, .exec_file filename ∈ frames → '\n' ∉ filename) (balanced : balancedFrom frames loopDepth)
    (read : parseLines (frames.flatMap Frame.lines ++ ["\x7d".toList]) loopDepth false = frames) :
    ∀ f ∈ frames, f.Clean := by
  induction frames generalizing loopDepth with
  | nil => exact List.forall_mem_nil _
  | cons f frames ih =>
    rw [List.forall_mem_cons] at shaped
    obtain ⟨inLoop, rest⟩ := balancedFrom_cons.mp balanced
    rw [List.flatMap_cons, List.append_assoc] at read
    by_cases clean : f.Clean
    · rw [parseLines_clean shaped.1 clean inLoop] at read
      have later := ih shaped.2 (fun filename member => oneLine filename (List.mem_cons_of_mem f member)) rest
        (List.cons.inj read).2
      exact List.forall_mem_cons.mpr ⟨clean, later⟩
    · have missing := parseLines_unclean shaped.1 clean
        (fun filename same => oneLine filename (by rw [← same]; exact List.mem_cons_self)) read
      have most := (countP_parseLines (fun f : Frame N => !isLoopEnd f)
        (frames.flatMap Frame.lines ++ ["\x7d".toList]) loopDepth false).trans (countP_gives_le shaped.2)
      have goesOn : isLoopEnd f = false := by
        cases f with
        | loop_end => exact absurd trivial clean
        | _ => rfl
      rw [missing, List.countP_cons, goesOn] at most
      simp only [Bool.not_false, if_true] at most
      omega

end Script

section Names

theorem trim_subset (line : List Char) : trim line ⊆ line := by
  have front := List.rdropWhile_prefix isWhite (line.dropWhile isWhite)
  exact fun c member => (List.dropWhile_suffix isWhite).subset (front.subset member)

/-- What a line can be read as. -/
inductive Reads (lt : List Char) : Effect N → Prop
  | nothing : Reads lt .nothing
  | loopEnd : Reads lt .loopEnd
  | execFile (m : Match) (found : rExecFile.exec lt = some m) : Reads lt (.push (.exec_file (cap m 1)))
  | gyroClear : Reads lt (.push .gyro_clear)
  | gyro (orientation : List Char) (velocity : Option (N.Number × N.Number × N.Number)) : Reads lt (.gyro orientation velocity)
  | posRot (args : List Char) : Reads lt (readPosRot args)
  | comment (text : List Char) : Reads lt (.push (.comment text))
  | loopStart (variable_ : List Char) (count : N.Number) : Reads lt (.loopStart variable_ count)
  | input (m : Match) : Reads lt (readInput m)

theorem reads_readLine (lt : List Char) : Reads lt (readLine (N := N) lt) := by
  unfold readLine
  split
  · exact .nothing
  · split
    · exact .nothing
    · split
      · exact .loopEnd
      · split
        next m found => exact .execFile m found
        next =>
          split
          · exact .gyroClear
          · split
            · exact .gyro _ _
            · split
              · exact .posRot _
              · split
                · exact .comment _
                · split
                  · exact .loopStart _ _
                  · split
                    · exact .input _
                    · exact .nothing

theorem readPosRot_ne_file (args filename : List Char) : readPosRot (N := N) args ≠ .push (.exec_file filename) := by
  unfold readPosRot
  simp only
  split
  · split
    · intro same
      cases same
    · intro same
      cases same
  · intro same
    cases same

/-- The name of a file that is read stands on the line. -/
theorem subset_of_execFile {lt filename : List Char} (read : readLine (N := N) lt = .push (.exec_file filename)) :
    filename ⊆ lt := by
  have kinds := reads_readLine (N := N) lt
  rw [read] at kinds
  generalize effect : (Effect.push (Frame.exec_file filename) : Effect N) = e at kinds
  cases kinds with
  | execFile m found =>
    injection effect with own
    injection own with own
    rw [own, cap]
    cases held : m.caps 1 with
    | none => exact List.nil_subset _
    | some w => exact (caps_of_search found held).subset
  | posRot args => exact absurd effect.symm (readPosRot_ne_file args filename)
  | input m => cases effect
  | nothing | loopEnd | gyroClear | gyro | comment | loopStart => cases effect

/-- The names of the files that are read have no newlines. -/
theorem newline_parseLines {lines : List (List Char)} (oneLine : ∀ line ∈ lines, '\n' ∉ line) (skip : Bool)
    {filename : List Char} (member : (.exec_file filename : Frame N) ∈ parseLines lines loopDepth skip) : '\n' ∉ filename := by
  induction lines generalizing loopDepth skip with
  | nil => cases member
  | cons line lines ih =>
    rw [List.forall_mem_cons] at oneLine
    have later {loopDepth : Nat} {skip : Bool}
        (member : (.exec_file filename : Frame N) ∈ parseLines lines loopDepth skip) : '\n' ∉ filename :=
      ih oneLine.2 skip member
    cases skip with
    | true => exact later member
    | false =>
      unfold parseLines at member
      cases read : readLine (N := N) (trim line) with
      | nothing =>
        rw [read] at member
        exact later member
      | loopEnd =>
        simp only [read] at member
        split at member
        · rcases List.mem_cons.mp member with own | behind
          · cases own
          · exact later behind
        · exact later member
      | loopStart variable_ count =>
        simp only [read] at member
        rcases List.mem_cons.mp member with own | behind
        · cases own
        · exact later behind
      | gyro orientation velocity =>
        simp only [read] at member
        rcases List.mem_cons.mp member with own | behind
        · cases own
        · exact later behind
      | push frame =>
        simp only [read] at member
        rcases List.mem_cons.mp member with own | behind
        · rw [← own] at read
          exact fun within => oneLine.1 (trim_subset line (subset_of_execFile read within))
        · exact later behind

theorem not_mem_splitOn (a : Char) (text : List Char) : ∀ line ∈ text.splitOn a, a ∉ line := by
  induction text with
  | nil =>
    rw [List.splitOn_nil, List.forall_mem_singleton]
    exact List.not_mem_nil
  | cons c text ih =>
    rw [List.splitOn_cons_eq_if_modifyHead]
    split
    next => exact List.forall_mem_cons.mpr ⟨List.not_mem_nil, ih⟩
    next other =>
      obtain ⟨line, lines, pieces⟩ := List.exists_cons_of_ne_nil (List.splitOn_ne_nil a text)
      rw [pieces, List.forall_mem_cons] at ih
      rw [pieces, List.modifyHead_cons, List.forall_mem_cons, List.mem_cons, not_or]
      exact ⟨⟨fun same => other (beq_iff_eq.mpr same.symm), ih.1⟩, ih.2⟩

end Names

/-- The script that is broadcast is read back as the optimized frames exactly if the lines of
all of them are clean. -/
theorem roundTrips_iff (fs : FrameList N) :
    parseScriptToFrames (broadcastState fs.frames) = getOptimizedFrames fs.frames ↔
      ∀ f ∈ getOptimizedFrames fs.frames, f.Clean := by
  have shaped := fs.shaped
  have balanced := fs.balanced_optimized
  have lines (names : ∀ filename, .exec_file filename ∈ getOptimizedFrames fs.frames → '\n' ∉ filename) :
      parseScriptToFrames (broadcastState fs.frames) =
        parseLines (N := N) ((getOptimizedFrames fs.frames).flatMap Frame.lines ++ ["\x7d".toList]) 0 false :=
    parse_printScript fun f member line own =>
      newline_code (shaped f member) (fun filename same => names filename (same ▸ member)) own
  constructor
  · intro same
    have names : ∀ filename, .exec_file filename ∈ getOptimizedFrames fs.frames → '\n' ∉ filename := by
      intro filename member
      rw [← same] at member
      apply newline_parseLines _ false member
      intro line inside
      exact not_mem_splitOn '\n' _ line (List.mem_of_mem_filter inside)
    exact clean_of_parse shaped names balanced ((lines names).symm.trans same)
  · intro clean
    have names : ∀ filename, .exec_file filename ∈ getOptimizedFrames fs.frames → '\n' ∉ filename :=
      fun filename member => (clean _ member).1
    rw [lines names]
    exact parse_of_clean shaped clean balanced

/-- A comment that looks like a call. -/
def clearingComment : FrameList decimals where
  frames := [.comment "tas::clearGyro();".toList]
  held := List.forall_mem_singleton.mpr ⟨⟨by decide, by decide⟩, trivial⟩
  balanced := rfl

/-- The comment is read back as the call. -/
theorem clearingComment_read :
    parseScriptToFrames (N := decimals) (broadcastState clearingComment.frames) ≠
      getOptimizedFrames clearingComment.frames := by
  have read : (parseScriptToFrames (N := decimals) (broadcastState clearingComment.frames)).any Frame.isComment = false := by
    decide +kernel
  intro same
  rw [same] at read
  exact absurd read (by decide)

end LotusKit.Editor

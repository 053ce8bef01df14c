import LotusKit.Editor.ReadLoop

/-! The lines that set and clear the gyro: they are read as the frames unless a velocity has an
exponent. -/

namespace LotusKit.Editor
open LotusKit.Lib LotusKit.Lib.Scan LotusKit.Lib.Regex Numbers

variable {N : Numbers} {c : Char}

section Decimal
variable {length : Nat} {caps : Nat → Option (List Char)} {rest u : List Char}

/-- Digits with or without a point are taken as a whole. -/
theorem first_unsigned {whole fraction : List Char} (some_ : whole ≠ []) (digits : ∀ c ∈ whole, c.isDigit = true)
    (isFraction : IsFraction fraction) (ends : Ends isDecimalChar rest) :
    First length (cat [star Char.isDigit, opt (word ".".toList), plus Char.isDigit])
      ⟨whole ++ (fraction ++ rest), caps⟩ ⟨rest, caps⟩ := by
  have endsDigit : Ends Char.isDigit rest := by
    intro c first
    have other := ends c first
    simp only [isDecimalChar, Bool.or_eq_false_iff] at other
    exact other.1.1
  have noPoint : expect ".".toList rest = none := by
    cases rest with
    | nil => rfl
    | cons c rest =>
      apply expect_cons_ne
      rintro rfl
      exact absurd (ends '.' rfl) (by decide)
  rcases isFraction with rfl | ⟨behind, rfl, some', digits'⟩
  · -- the last digit is given back
    obtain ⟨front, last, rfl⟩ : ∃ front last, whole = front ++ [last] :=
      ⟨_, _, (List.dropLast_append_getLast some_).symm⟩
    have digit := digits last (List.mem_append_right front List.mem_cons_self)
    have text : front ++ [last] ++ ([] ++ rest) = front ++ last :: rest := by
      rw [List.nil_append, List.append_assoc, List.singleton_append]
    rw [text]
    apply First.giveBack digits endsDigit
    · have none_ : results length (plus Char.isDigit) ⟨rest, caps⟩ = [] := by
        apply results_seq_of_nil
        cases rest with
        | nil => rfl
        | cons c rest => simp only [results, endsDigit c rfl, Bool.false_eq_true, if_false]
      simp only [cat, results, noPoint, Option.map_none, Option.toList_none, List.nil_append, List.flatMap_singleton]
      exact none_
    · have other : expect ".".toList (last :: rest) = none := by
        apply expect_cons_ne
        rintro rfl
        exact absurd digit (by decide)
      apply First.seq (first_skip (results_word_of_none other))
      exact @first_plus _ _ _ [last] rest (List.cons_ne_nil _ _) (List.forall_mem_singleton.mpr digit) endsDigit
  · apply First.seq (first_star digits (ends_cons (by decide) _))
    apply First.seq (First.opt (first_word ".".toList (behind ++ rest) _))
    exact first_plus some' digits' endsDigit

theorem first_decimal {x : N.Number} (plain : (N.shortest x).Plain) (ends : Ends isDecimalChar rest) :
    First length decimal ⟨N.text x ++ rest, caps⟩ ⟨rest, caps⟩ := by
  obtain ⟨negative, whole, fraction, text, some_, digits, isFraction⟩ := text_plain plain
  have number := @first_unsigned length caps rest whole fraction some_ digits isFraction ends
  rw [text, signed, List.append_assoc, List.append_assoc]
  cases negative with
  | true => exact First.seq (First.opt (first_word ['-'] (whole ++ (fraction ++ rest)) caps)) number
  | false =>
    obtain ⟨c, more, rfl⟩ := List.exists_cons_of_ne_nil some_
    have unsigned := (isDigit_ne (digits c List.mem_cons_self)).1
    have other : expect ['-'] (c :: more ++ (fraction ++ rest)) = none := expect_cons_ne unsigned.symm [] _
    exact First.seq (first_skip (results_word_of_none other)) number

theorem ends_text {x : N.Number} (plain : (N.shortest x).Plain) (rest : List Char) : Ends isWhite (N.text x ++ rest) := by
  obtain ⟨negative, whole, fraction, text, some_, -⟩ := text_plain plain
  have printed : N.text x ≠ [] := by
    rw [text, signed]
    exact List.append_ne_nil_of_right_ne_nil _ (List.append_ne_nil_of_left_ne_nil some_ fraction)
  obtain ⟨c, more, own⟩ := List.exists_cons_of_ne_nil printed
  have number := text_isNumberChar x c (by rw [own]; exact List.mem_cons_self)
  rw [own]
  exact ends_cons (isWhite_of_isNumberChar number) _

theorem lang_decimal (lang : decimal.Lang u) : ∀ c ∈ u, isDecimalChar c = true := by
  obtain ⟨sign, _, rfl, minus, whole, _, rfl, digits, point, fraction, rfl, dot, digits'⟩ := lang
  have char {w : List Char} (one : w = [] ∨ w = ['-'] ∨ w = ['.']) : ∀ c ∈ w, isDecimalChar c = true := by
    rcases one with rfl | rfl | rfl
    · exact List.forall_mem_nil _
    · exact List.forall_mem_singleton.mpr rfl
    · exact List.forall_mem_singleton.mpr rfl
  have all : ∀ w ∈ [sign, whole, point, fraction], ∀ c ∈ w, isDecimalChar c = true := by
    simp only [List.forall_mem_cons]
    exact ⟨char (minus.imp_right .inl), fun c member => isDecimalChar_of_isDigit (digits c member),
      char (dot.imp_right .inr), fun c member => isDecimalChar_of_isDigit (lang_plus digits' c member),
      List.forall_mem_nil _⟩
  intro c member
  have within : c ∈ [sign, whole, point, fraction].flatten := by
    simpa only [List.flatten_cons, List.flatten_nil, List.append_nil] using member
  obtain ⟨w, own, inside⟩ := List.mem_flatten.mp within
  exact all w own c inside

end Decimal

section Orientation
variable {orientation : List Char}

def orientationLine (orientation : List Char) : List Char :=
  "tas::setGyroRotation(Matrix33f::".toList ++ orientation ++ ");".toList

theorem orientationLine_eq (orientation : List Char) :
    orientationLine orientation = "tas::setGyroRotation(Matrix33f::".toList ++ orientation ++ ");".toList := rfl

theorem not_mem_orientationLine (upper : ∀ c ∈ orientation, c.isUpper = true) (checks : c.isUpper = false ∧
    c ∉ "tas::setGyroRotation(Matrix33f::);".toList) : c ∉ orientationLine orientation := by
  have piece {w : List Char} (part : w ⊆ "tas::setGyroRotation(Matrix33f::);".toList) : c ∉ w :=
    fun member => checks.2 (part member)
  have own : c ∉ orientation := by
    intro member
    rw [upper c member] at checks
    exact absurd checks.1 (by decide)
  exact List.not_mem_append (List.not_mem_append (piece (by decide)) own) (piece (by decide))

theorem exec_orientationLine (some_ : orientation ≠ []) (upper : ∀ c ∈ orientation, c.isUpper = true) :
    rGyroRot.exec (orientationLine orientation) = some (Match.capture 1 orientation ⟨[], fun _ => none⟩) := by
  have line : orientationLine orientation = "tas::".toList ++ ("setGyroRotation(Matrix33f::".toList ++ (orientation ++
      (");".toList ++ []))) := by
    simp only [orientationLine_eq, List.append_assoc, List.append_nil]
    rfl
  apply First.exec
  generalize (orientationLine orientation).length = length
  rw [line]
  apply First.seq (First.opt (first_word _ _ _))
  apply First.seq (first_word _ _ _)
  apply First.seq (First.group (first_plus some_ upper (ends_cons (by decide) _)))
  exact first_word _ _ _

/-- The line sets the orientation; the velocity is not on it. -/
theorem readLine_orientation (some_ : orientation ≠ []) (upper : ∀ c ∈ orientation, c.isUpper = true) :
    readLine (N := N) (trim (orientationLine orientation)) = .gyro orientation none := by
  have trimmed : trim (orientationLine orientation) = orientationLine orientation := by
    have text : orientationLine orientation = "tas::setGyroRotation(Matrix33f::".toList ++ orientation ++ [')'] ++ [';'] := by
      rw [orientationLine_eq, List.append_assoc _ [')']]
      rfl
    rw [text]
    exact trim_solid (c := 't') rfl (by decide) (by decide)
  have without {r : Regex} (c : Char) (w : List Char) (checks : r.hasWord w = true ∧ c ∈ w ∧ c.isUpper = false ∧
      c ∉ "tas::setGyroRotation(Matrix33f::);".toList) : r.exec (orientationLine orientation) = none :=
    exec_eq_none_of_char c checks.1 checks.2.1 (not_mem_orientationLine upper checks.2.2)
  have solid : orientationLine orientation ≠ [] := List.cons_ne_nil _ _
  have main_ := (Passes.zero solid).next rfl (@without rMainStart '\x7b' "\x7b".toList (by decide))
  have brace := main_.next rfl (@without rLoopEnd '\x7d' "\x7d".toList (by decide))
  have file := brace.next rfl (@without rExecFile '"' "\"".toList (by decide))
  have clear := file.next rfl (@without rGyroClear 'c' "clearGyro();".toList (by decide))
  have velocity := @without rGyroVel 'g' "setGyroAngularVelocity(Vector3f(".toList (by decide)
  rw [trimmed, readLine_gyroRot clear (exec_orientationLine some_ upper), readVelocity, velocity]
  rfl

end Orientation

section Velocity
variable (x y z : N.Number)

/-- What stands behind the brackets. -/
def velocityArgs : List Char := N.text x ++ ',' :: (' ' :: N.text y ++ ',' :: (' ' :: N.text z ++ ')' :: ");".toList))

def velocityLine : List Char := "tas::set".toList ++ 'G' :: ("yroAngularVelocity(Vector3f(".toList ++ velocityArgs x y z)

theorem velocityLine_eq : velocityLine x y z =
    "tas::set".toList ++ 'G' :: ("yroAngularVelocity(Vector3f(".toList ++ velocityArgs x y z) := rfl

theorem code_gyro_set (orientation : List Char) :
    (Frame.gyro_set orientation x y z).code = [orientationLine orientation, velocityLine x y z] := by
  have second : "tas::setGyroAngularVelocity(Vector3f(".toList ++ N.text x ++ ", ".toList ++ N.text y ++
      ", ".toList ++ N.text z ++ "));".toList = velocityLine x y z := by
    simp only [velocityLine_eq, velocityArgs, List.append_assoc, List.cons_append]
    rfl
  rw [Frame.code, second]
  rfl

variable {x y z}

theorem not_mem_velocityArgs (checks : isNumberChar c = false ∧ c ∉ ", );".toList) : c ∉ velocityArgs x y z := by
  obtain ⟨number, apart⟩ := checks
  have piece {w : List Char} (part : w ⊆ ", );".toList) : c ∉ w := fun member => apart (part member)
  have one {d : Char} (part : d ∈ ", );".toList) : c ≠ d := fun same => apart (same ▸ part)
  simp only [velocityArgs, List.mem_append, List.mem_cons, not_or]
  exact ⟨not_mem_text number x, one (by decide), ⟨one (by decide), not_mem_text number y⟩, one (by decide),
    ⟨one (by decide), not_mem_text number z⟩, one (by decide), piece (by decide)⟩

theorem not_mem_velocityLine (checks : isNumberChar c = false ∧
    c ∉ "tas::setGyroAngularVelocity(Vector3f(, );".toList) : c ∉ velocityLine x y z := by
  obtain ⟨number, apart⟩ := checks
  have piece {w : List Char} (part : w ⊆ "tas::setGyroAngularVelocity(Vector3f(, );".toList) : c ∉ w :=
    fun member => apart (part member)
  have one : c ≠ 'G' := fun same => apart (by rw [same]; decide)
  simp only [velocityLine_eq, List.mem_append, List.mem_cons, not_or]
  exact ⟨piece (by decide), one, piece (by decide), not_mem_velocityArgs ⟨number, piece (by decide)⟩⟩

theorem trim_velocityLine : trim (velocityLine x y z) = velocityLine x y z := by
  have text : velocityLine x y z = "tas::set".toList ++ 'G' :: ("yroAngularVelocity(Vector3f(".toList ++
      (N.text x ++ ',' :: (' ' :: N.text y ++ ',' :: (' ' :: N.text z ++ ')' :: ")".toList)))) ++ [';'] := by
    simp only [velocityLine_eq, velocityArgs, List.append_assoc, List.cons_append]
    rfl
  rw [text]
  exact trim_solid (c := 't') rfl (by decide) (by decide)

/-- No test takes the line of a velocity on its own. -/
theorem readLine_velocityLine : readLine (N := N) (trim (velocityLine x y z)) = .nothing := by
  have without {r : Regex} (c : Char) (w : List Char) (checks : r.hasWord w = true ∧ c ∈ w ∧ isNumberChar c = false ∧
      c ∉ "tas::setGyroAngularVelocity(Vector3f(, );".toList) : r.exec (velocityLine x y z) = none :=
    exec_eq_none_of_char c checks.1 checks.2.1 (not_mem_velocityLine checks.2.2)
  have once : 'G' ∉ "yroAngularVelocity(Vector3f(".toList ++ velocityArgs x y z :=
    List.not_mem_append (by decide) (not_mem_velocityArgs (by decide))
  have clear : rGyroClear.exec (velocityLine x y z) = none := by
    rw [velocityLine_eq]
    have apart : ¬("clear".toList <:+ "tas::set".toList ∧
        "yro();".toList <+: "yroAngularVelocity(Vector3f(".toList ++ velocityArgs x y z) :=
      fun around => absurd around.1 (by decide)
    exact exec_eq_none_of_around (by decide) ⟨by decide, once⟩ apart
  have solid : velocityLine x y z ≠ [] := List.cons_ne_nil _ _
  have main_ := (Passes.zero solid).next rfl (@without rMainStart '\x7b' "\x7b".toList (by decide))
  have brace := main_.next rfl (@without rLoopEnd '\x7d' "\x7d".toList (by decide))
  have file := brace.next rfl (@without rExecFile '"' "\"".toList (by decide))
  have rot := (file.next rfl clear).next rfl (@without rGyroRot 'R' "setGyroRotation(Matrix33f::".toList (by decide))
  have pos := rot.next rfl (@without rPosRot 'P' "Player.setPosRot(".toList (by decide))
  have slashes := pos.next rfl (@without rComment '/' "//".toList (by decide))
  have loop := slashes.next rfl (@without rLoopStart '<' "<".toList (by decide))
  rw [trim_velocityLine]
  exact readLine_nothing (loop.next rfl (@without rInputFlex 'p' "input(".toList (by decide)))

/-- Only velocities without exponents are read. -/
theorem plain_of_exec_velocity {m : Match} (found : rGyroVel.exec (velocityLine x y z) = some m) :
    (N.shortest x).Plain ∧ (N.shortest y).Plain ∧ (N.shortest z).Plain := by
  obtain ⟨before, u, split_, lang⟩ := lang_of_search found
  obtain ⟨tas, _, rfl, -, call, _, rfl, rfl, dx, _, rfl, first, comma₁, _, rfl, ⟨_, blanks, rfl, rfl, white_⟩, dy, _, rfl,
    second, comma₂, _, rfl, ⟨_, blanks', rfl, rfl, white'⟩, dz, _, rfl, third, rfl⟩ := lang
  -- the name of the call stands where it stands in the line
  have text : "tas::set".toList ++ 'G' :: ("yroAngularVelocity(Vector3f(".toList ++ velocityArgs x y z) =
      (before ++ tas ++ "set".toList) ++ 'G' :: ("yroAngularVelocity(Vector3f(".toList ++ (dx ++ ',' :: ((blanks ++ dy) ++
        ',' :: ((blanks' ++ dz) ++ ')' :: (");".toList ++ m.rest))))) := by
    rw [← velocityLine_eq, split_]
    simp only [List.append_assoc]
    rfl
  have once : 'G' ∉ "yroAngularVelocity(Vector3f(".toList ++ velocityArgs x y z :=
    List.not_mem_append (by decide) (not_mem_velocityArgs (by decide))
  obtain ⟨-, -, behind⟩ := (List.append_cons_inj_of_notMem (by decide) once).mp text
  have args := List.append_cancel_left behind
  have number (w : N.Number) {c : Char} (other : isNumberChar c = false) (apart : c ≠ ' ') : c ∉ ' ' :: N.text w := by
    rw [List.mem_cons, not_or]
    exact ⟨apart, not_mem_text other w⟩
  have argument {blanks digits : List Char} (white_ : ∀ c ∈ blanks, isWhite c = true) (lang : decimal.Lang digits) :
      IsArgument (blanks ++ digits) := by
    intro c member
    rcases List.mem_append.mp member with blank | digit
    · exact .inl (white_ c blank)
    · exact .inr (lang_decimal lang c digit)
  have second' := argument white_ second
  have third' := argument white' third
  have separate {w : List Char} (argument : IsArgument w) {c : Char} (checks : isWhite c = false ∧ isDecimalChar c = false) :
      c ∉ w := by
    intro member
    rcases argument c member with blank | digit
    · exact absurd (checks.1.symm.trans blank) (by decide)
    · exact absurd (checks.2.symm.trans digit) (by decide)
  obtain ⟨rfl, behindX⟩ := eq_of_append_cons (not_mem_text (by decide) x)
    (fun member => absurd (lang_decimal first ',' member) (by decide)) args
  obtain ⟨same, behindY⟩ :=
    @eq_of_append_cons ',' _ _ _ _ (number y (by decide) (by decide)) (separate second' (by decide)) behindX
  obtain ⟨same', -⟩ :=
    @eq_of_append_cons ')' _ _ _ _ (number z (by decide) (by decide)) (separate third' (by decide)) behindY
  rw [← same] at second'
  rw [← same'] at third'
  exact ⟨plain_of_isDecimalChar (lang_decimal first),
    plain_of_isWhite_or fun c member => second' c (List.mem_cons_of_mem ' ' member),
    plain_of_isWhite_or fun c member => third' c (List.mem_cons_of_mem ' ' member)⟩

theorem readVelocity_of_plain (shaped : N.Finite x ∧ N.Finite y ∧ N.Finite z)
    (plain : (N.shortest x).Plain ∧ (N.shortest y).Plain ∧ (N.shortest z).Plain) :
    readVelocity (trim (velocityLine x y z)) = some (x, y, z) := by
  have line : velocityLine x y z = "tas::".toList ++ ("setGyroAngularVelocity(Vector3f(".toList ++ (N.text x ++
      (',' :: ([' '] ++ (N.text y ++ (',' :: ([' '] ++ (N.text z ++ ("));".toList ++ []))))))))) := by
    simp only [velocityLine_eq, velocityArgs, List.cons_append, List.append_nil]
    rfl
  have white : ∀ c ∈ [' '], isWhite c = true := List.forall_mem_singleton.mpr rfl
  have found : rGyroVel.exec (velocityLine x y z) = some (Match.capture 3 (N.text z) (Match.capture 2 (N.text y)
      (Match.capture 1 (N.text x) ⟨[], fun _ => none⟩))) := by
    apply First.exec
    generalize (velocityLine x y z).length = length
    rw [line]
    apply First.seq (First.opt (first_word _ _ _))
    apply First.seq (first_word _ _ _)
    apply First.seq (First.group (first_decimal plain.1 (ends_cons (by decide) _)))
    apply First.seq (first_comma white (ends_text plain.2.1 _))
    apply First.seq (First.group (first_decimal plain.2.1 (ends_cons (by decide) _)))
    apply First.seq (first_comma white (ends_text plain.2.2 _))
    apply First.seq (First.group (first_decimal plain.2.2 (ends_cons (by decide) _)))
    exact first_word _ _ _
  rw [trim_velocityLine, readVelocity, found]
  simp only [cap, Match.capture, Nat.reduceEqDiff, reduceIte, Option.getD_some, Option.map_some, parseFloat_text shaped.1,
    parseFloat_text shaped.2.1, parseFloat_text shaped.2.2]

/-- With an exponent there is no velocity. -/
theorem readVelocity_of_unclean
    (unclean : ¬((N.shortest x).Plain ∧ (N.shortest y).Plain ∧ (N.shortest z).Plain)) :
    readVelocity (N := N) (trim (velocityLine x y z)) = none := by
  rw [trim_velocityLine, readVelocity, Option.map_eq_none_iff]
  cases found : rGyroVel.exec (velocityLine x y z) with
  | none => rfl
  | some m => exact absurd (plain_of_exec_velocity found) unclean

end Velocity

section Clear

theorem code_gyro_clear : (Frame.gyro_clear : Frame N).code = ["tas::clearGyro();".toList] := rfl

theorem readLine_gyro_clear : readLine (N := N) (trim "tas::clearGyro();".toList) = .push .gyro_clear := by
  have trimmed : trim "tas::clearGyro();".toList = "tas::clearGyro();".toList := by decide
  have without {r : Regex} (c : Char) (w : List Char) (checks : r.hasWord w = true ∧ c ∈ w ∧ c ∉ "tas::clearGyro();".toList) :
      r.exec "tas::clearGyro();".toList = none := exec_eq_none_of_char c checks.1 checks.2.1 checks.2.2
  have solid : "tas::clearGyro();".toList ≠ [] := List.cons_ne_nil _ _
  have main_ := (Passes.zero solid).next rfl (@without rMainStart '\x7b' "\x7b".toList (by decide))
  have brace := main_.next rfl (@without rLoopEnd '\x7d' "\x7d".toList (by decide))
  have file := brace.next rfl (@without rExecFile '"' "\"".toList (by decide))
  rw [trimmed]
  exact readLine_gyroClear file (by decide)

end Clear

end LotusKit.Editor

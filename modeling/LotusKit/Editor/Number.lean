import LotusKit.Lib.Scan
import Mathlib.Algebra.Group.Int.Defs

/-! Numbers as JavaScript prints and reads them. How doubles are rounded is left open: what
counts is that the shortest decimal, which is printed, is read as the same number. -/

namespace LotusKit.Editor
open LotusKit.Lib.Scan

/-- What `Number::toString` starts from: `digits * 10 ^ exponent`, without zeros at the end. -/
inductive Shortest where
  | nan
  | infinity (negative : Bool)
  | zero
  | finite (negative : Bool) (digits : Nat) (exponent : Int)
  deriving DecidableEq

/-- The doubles, where `0` and `-0` are one, as `===` has it. -/
structure Numbers where
  Number : Type
  decEq : DecidableEq Number
  shortest : Number → Shortest
  nan : Number
  infinity : Bool → Number
  /-- The number next to `m * 10 ^ e`. -/
  ofDecimal : Bool → Nat → Int → Number
  add : Number → Number → Number
  digits_mod : ∀ (x : Number) (negative : Bool) (s : Nat) (e : Int), shortest x = .finite negative s e → s % 10 ≠ 0
  ofDecimal_scale : ∀ (negative : Bool) (m j : Nat) (e : Int), ofDecimal negative (m * 10 ^ j) e = ofDecimal negative m (e + j)
  ofDecimal_shortest : ∀ (x : Number) (negative : Bool) (s : Nat) (e : Int), shortest x = .finite negative s e →
    ofDecimal negative s e = x
  ofDecimal_zero : ∀ (x : Number) (negative : Bool) (e : Int), shortest x = .zero → ofDecimal negative 0 e = x
  shortest_zero : ∀ (negative : Bool) (e : Int), shortest (ofDecimal negative 0 e) = .zero
  /-- A sum of positive integers is rounded to one, if it is not too large. -/
  add_whole : ∀ (x y : Number) (s : Nat) (e : Int) (s' : Nat) (e' : Int), shortest x = .finite false s e → 0 ≤ e →
    shortest y = .finite false s' e' → 0 ≤ e' →
      (∃ t d, shortest (add x y) = .finite false t d ∧ 0 ≤ d) ∨ shortest (add x y) = .infinity false

/-- `WhiteSpace` and `LineTerminator`, which are what `\\s` and `trim` take. -/
def isWhite (c : Char) : Bool :=
  let n := c.toNat
  (9 ≤ n ∧ n ≤ 13) ∨ n = 0x20 ∨ n = 0xa0 ∨ n = 0x1680 ∨ (0x2000 ≤ n ∧ n ≤ 0x200a) ∨ n = 0x2028 ∨
    n = 0x2029 ∨ n = 0x202f ∨ n = 0x205f ∨ n = 0x3000 ∨ n = 0xfeff

namespace Shortest

/-- The decimal notation of `digits * 10 ^ exponent`. -/
def decimalText (digits : Nat) (exponent : Int) : List Char :=
  let ds := Nat.toDigits 10 digits
  let n : Int := ds.length + exponent
  if 0 ≤ exponent ∧ n ≤ 21 then ds ++ List.replicate exponent.toNat '0'
  else if 0 < n ∧ n ≤ 21 then ds.take n.toNat ++ '.' :: ds.drop n.toNat
  else if -6 < n ∧ n ≤ 0 then '0' :: '.' :: (List.replicate (-n).toNat '0' ++ ds)
  else
    ds.take 1 ++ (if ds.drop 1 = [] then [] else '.' :: ds.drop 1) ++
      'e' :: (if 0 < n then '+' else '-') :: Nat.toDigits 10 (n - 1).natAbs

/-- `Number::toString` -/
def text : Shortest → List Char
  | nan => "NaN".toList
  | infinity negative => (if negative then ['-'] else []) ++ "Infinity".toList
  | zero => ['0']
  | finite negative digits exponent => (if negative then ['-'] else []) ++ decimalText digits exponent

/-- Printed without an exponent. -/
def Plain : Shortest → Prop
  | zero => True
  | finite _ digits exponent =>
    -6 < (Nat.toDigits 10 digits).length + exponent ∧ (Nat.toDigits 10 digits).length + exponent ≤ 21
  | _ => False

instance : (s : Shortest) → Decidable s.Plain
  | nan => inferInstanceAs (Decidable False)
  | infinity _ => inferInstanceAs (Decidable False)
  | zero => inferInstanceAs (Decidable True)
  | finite _ _ _ => inferInstanceAs (Decidable (_ ∧ _))

end Shortest

/-- The exponent, when there is a complete one. -/
def readExponent (text : List Char) : Int :=
  match text with
  | c :: rest =>
    if c = 'e' ∨ c = 'E' then
      match rest with
      | '-' :: digits => -(Nat.ofDigitChars 10 (digits.takeWhile Char.isDigit) 0 : Int)
      | '+' :: digits => Nat.ofDigitChars 10 (digits.takeWhile Char.isDigit) 0
      | digits => Nat.ofDigitChars 10 (digits.takeWhile Char.isDigit) 0
    else 0
  | [] => 0

theorem readExponent_text (n : Int) :
    readExponent ('e' :: (if 0 < n then '+' else '-') :: Nat.toDigits 10 (n - 1).natAbs) = n - 1 := by
  have digits : (Nat.toDigits 10 (n - 1).natAbs).takeWhile Char.isDigit = Nat.toDigits 10 (n - 1).natAbs := by
    have all := ends_nil.takeWhile (@isDigit_of_mem (n - 1).natAbs)
    rwa [List.append_nil] at all
  by_cases positive : 0 < n
  · simp only [readExponent, if_pos positive, digits, Nat.ofDigitChars_ten_toDigits, true_or, if_true]
    omega
  · simp only [readExponent, if_neg positive, digits, Nat.ofDigitChars_ten_toDigits, true_or, if_true]
    omega

namespace Numbers
variable (N : Numbers)

instance : DecidableEq N.Number := N.decEq

/-- `String(x)` -/
def text (x : N.Number) : List Char := (N.shortest x).text

def parseUnsigned (negative : Bool) (text : List Char) : N.Number :=
  let whole := text.takeWhile Char.isDigit
  let after := text.dropWhile Char.isDigit
  let (fraction, after) :=
    match after with
    | '.' :: more => (more.takeWhile Char.isDigit, more.dropWhile Char.isDigit)
    | after => ([], after)
  if (expect "Infinity".toList text).isSome then N.infinity negative
  else if whole = [] ∧ fraction = [] then N.nan
  else
    N.ofDecimal negative (Nat.ofDigitChars 10 (whole ++ fraction) 0)
      (readExponent after - fraction.length)

/-- `parseFloat(text)` -/
def parseFloat (text : List Char) : N.Number :=
  match text.dropWhile isWhite with
  | '-' :: rest => N.parseUnsigned true rest
  | '+' :: rest => N.parseUnsigned false rest
  | rest => N.parseUnsigned false rest

def parseDigits (negative : Bool) (text : List Char) : N.Number :=
  let digits := text.takeWhile Char.isDigit
  if digits = [] then N.nan else N.ofDecimal negative (Nat.ofDigitChars 10 digits 0) 0

/-- `parseInt(text)` of a text that does not start with `0x`. -/
def parseInt (text : List Char) : N.Number :=
  match text.dropWhile isWhite with
  | '-' :: rest => N.parseDigits true rest
  | '+' :: rest => N.parseDigits false rest
  | rest => N.parseDigits false rest

section Read
variable {whole fraction after : List Char} {negative : Bool}

theorem parseUnsigned_whole (digits : ∀ c ∈ whole, c.isDigit = true) (some_ : whole ≠ [])
    (ends : Ends (fun c => c.isDigit || c == '.') after) :
    N.parseUnsigned negative (whole ++ after) =
      N.ofDecimal negative (Nat.ofDigitChars 10 whole 0) (readExponent after) := by
  have endsDigits : Ends Char.isDigit after := by
    intro c first
    exact (Bool.or_eq_false_iff.mp (ends c first)).1
  have finite : expect "Infinity".toList (whole ++ after) = none := by
    obtain ⟨c, more, rfl⟩ := List.exists_cons_of_ne_nil some_
    apply expect_cons_ne
    rintro rfl
    exact absurd (digits 'I' List.mem_cons_self) (by decide)
  have noDot : ∀ more, after ≠ '.' :: more := by
    rintro more rfl
    exact absurd (ends '.' rfl) (by decide)
  simp only [parseUnsigned, endsDigits.takeWhile digits, endsDigits.dropWhile digits, finite]
  rw [if_neg (by decide), if_neg (fun none_ => some_ none_.1), List.append_nil, List.length_nil]
  simp only [Int.natCast_zero, Int.sub_zero]

theorem parseUnsigned_fraction (digits : ∀ c ∈ whole, c.isDigit = true) (some_ : whole ≠ [])
    (digits' : ∀ c ∈ fraction, c.isDigit = true) (ends : Ends Char.isDigit after) :
    N.parseUnsigned negative (whole ++ '.' :: (fraction ++ after)) =
      N.ofDecimal negative (Nat.ofDigitChars 10 (whole ++ fraction) 0)
        (readExponent after - fraction.length) := by
  have dot : Ends Char.isDigit ('.' :: (fraction ++ after)) := ends_cons (by decide) _
  have finite : expect "Infinity".toList (whole ++ '.' :: (fraction ++ after)) = none := by
    obtain ⟨c, more, rfl⟩ := List.exists_cons_of_ne_nil some_
    apply expect_cons_ne
    rintro rfl
    exact absurd (digits 'I' List.mem_cons_self) (by decide)
  simp only [parseUnsigned, dot.takeWhile digits, dot.dropWhile digits, finite,
    ends.takeWhile digits', ends.dropWhile digits']
  rw [if_neg (by decide), if_neg (fun none_ => some_ none_.1)]

end Read

variable {N}

theorem parseUnsigned_decimalText {x : N.Number} {negative : Bool} {s : Nat} {e : Int}
    (shortest : N.shortest x = .finite negative s e) :
    N.parseUnsigned negative (Shortest.decimalText s e) = x := by
  have digits := @isDigit_of_mem s
  have value : Nat.ofDigitChars 10 (Nat.toDigits 10 s) 0 = s := Nat.ofDigitChars_ten_toDigits
  have some_ : Nat.toDigits 10 s ≠ [] := Nat.toDigits_ne_nil
  have length : 0 < (Nat.toDigits 10 s).length := List.length_pos_iff.mpr some_
  have goal := N.ofDecimal_shortest x negative s e shortest
  simp only [Shortest.decimalText]
  generalize ds : Nat.toDigits 10 s = digits_ at *
  split
  next large =>
    have all : ∀ c ∈ digits_ ++ List.replicate e.toNat '0', c.isDigit = true := by
      intro c member
      rcases List.mem_append.mp member with front | zeros
      · exact digits c front
      · rw [(List.mem_replicate.mp zeros).2]
        decide
    have read := @N.parseUnsigned_whole _ [] negative all (List.append_ne_nil_of_left_ne_nil some_ _) ends_nil
    rw [List.append_nil] at read
    rw [read, Nat.ofDigitChars_append, value, Nat.ofDigitChars_replicate_zero, Nat.mul_comm,
      N.ofDecimal_scale, ← goal]
    congr 1
    simp only [readExponent]
    omega
  next notLarge =>
    split
    next within =>
      have front : digits_.take (digits_.length + e).toNat ≠ [] := by
        intro none_
        have lengths := congrArg List.length none_
        rw [List.length_take, List.length_nil] at lengths
        omega
      have read := @N.parseUnsigned_fraction _ (digits_.drop (digits_.length + e).toNat) [] negative
        (fun c member => digits c (List.mem_of_mem_take member)) front
        (fun c member => digits c (List.mem_of_mem_drop member)) ends_nil
      rw [List.append_nil] at read
      rw [read, List.take_append_drop, value, ← goal]
      congr 1
      simp only [readExponent, List.length_drop]
      omega
    next =>
      split
      next small =>
        have all : ∀ c ∈ List.replicate (-(digits_.length + e)).toNat '0' ++ digits_, c.isDigit = true := by
          intro c member
          rcases List.mem_append.mp member with zeros | behind
          · rw [(List.mem_replicate.mp zeros).2]
            decide
          · exact digits c behind
        have read := @N.parseUnsigned_fraction ['0'] (List.replicate (-(digits_.length + e)).toNat '0' ++ digits_)
          [] negative (List.forall_mem_singleton.mpr rfl) (List.cons_ne_nil _ _) all ends_nil
        rw [List.append_nil] at read
        have number : Nat.ofDigitChars 10
            (['0'] ++ (List.replicate (-(digits_.length + e)).toNat '0' ++ digits_)) 0 = s := by
          rw [Nat.ofDigitChars_append, Nat.ofDigitChars_append]
          have zero : Nat.ofDigitChars 10 ['0'] 0 = 0 := by decide
          rw [zero, Nat.ofDigitChars_replicate_zero, Nat.mul_zero, value]
        rw [number] at read
        refine read.trans (Eq.trans ?_ goal)
        congr 1
        simp only [readExponent, List.length_append, List.length_replicate]
        omega
      next =>
        have exponent := readExponent_text (digits_.length + e)
        have front : digits_.take 1 ≠ [] := by
          intro none_
          have lengths := congrArg List.length none_
          rw [List.length_take, List.length_nil] at lengths
          omega
        have frontDigits : ∀ c ∈ digits_.take 1, c.isDigit = true :=
          fun c member => digits c (List.mem_of_mem_take member)
        split
        next single =>
          have whole : digits_.take 1 = digits_ := by
            have split_ := List.take_append_drop 1 digits_
            rwa [single, List.append_nil] at split_
          have one := congrArg List.length single
          rw [List.length_drop, List.length_nil] at one
          rw [List.append_nil, N.parseUnsigned_whole frontDigits front (ends_cons (by decide) _), exponent, whole,
            value, ← goal]
          congr 1
          omega
        next =>
          rw [List.append_assoc, List.cons_append, N.parseUnsigned_fraction frontDigits front
            (fun c member => digits c (List.mem_of_mem_drop member)) (ends_cons (by decide) _), exponent,
            List.take_append_drop, value, ← goal]
          congr 1
          rw [List.length_drop]
          omega

/-- A number that is not `NaN` and not infinite. -/
def Finite (N : Numbers) (x : N.Number) : Prop :=
  N.shortest x = .zero ∨ ∃ negative s e, N.shortest x = .finite negative s e

/-- An integer. -/
def Whole (N : Numbers) (x : N.Number) : Prop :=
  N.shortest x = .zero ∨ ∃ negative s e, N.shortest x = .finite negative s e ∧ 0 ≤ e

/-- A decimal starts with a digit. -/
theorem decimalText_first (s : Nat) (e : Int) :
    ∃ c more, Shortest.decimalText s e = c :: more ∧ c.isDigit = true := by
  obtain ⟨c, more, digits, digit⟩ := exists_toDigits_eq_cons s
  simp only [Shortest.decimalText, digits]
  split
  next => exact ⟨c, _, rfl, digit⟩
  next =>
    split
    next within =>
      obtain ⟨n, succ⟩ : ∃ n, (((c :: more).length : Int) + e).toNat = n + 1 :=
        Nat.exists_eq_succ_of_ne_zero (by omega)
      rw [succ, List.take_succ_cons]
      exact ⟨c, _, rfl, digit⟩
    next =>
      split
      next => exact ⟨'0', _, rfl, by decide⟩
      next => exact ⟨c, _, rfl, digit⟩

theorem not_isWhite_of_isDigit {c : Char} (digit : c.isDigit = true) : isWhite c = false := by
  have bounds : 48 ≤ c.toNat ∧ c.toNat ≤ 57 := by
    simp only [Char.isDigit, Bool.and_eq_true, decide_eq_true_eq] at digit
    exact digit
  simp only [isWhite, decide_eq_false_iff_not]
  omega

theorem isDigit_ne {c : Char} (digit : c.isDigit = true) : c ≠ '-' ∧ c ≠ '+' := by
  constructor
  · rintro rfl
    exact absurd digit (by decide)
  · rintro rfl
    exact absurd digit (by decide)

theorem parseFloat_unsigned {text : List Char} (first : ∃ c more, text = c :: more ∧ c.isDigit = true) :
    N.parseFloat text = N.parseUnsigned false text ∧
      N.parseFloat ('-' :: text) = N.parseUnsigned true text := by
  obtain ⟨c, more, rfl, digit⟩ := first
  constructor
  · unfold parseFloat
    rw [List.dropWhile_cons_of_neg (by rw [not_isWhite_of_isDigit digit]; decide)]
    split
    next same => exact absurd (List.cons.inj same).1 (isDigit_ne digit).1
    next same => exact absurd (List.cons.inj same).1 (isDigit_ne digit).2
    next => rfl
  · unfold parseFloat
    rw [List.dropWhile_cons_of_neg (by decide)]
    rfl

/-- What is printed is read back. -/
theorem parseFloat_text {x : N.Number} (finite : N.Finite x) : N.parseFloat (N.text x) = x := by
  rcases finite with zero | ⟨negative, s, e, shortest⟩
  · have read := @N.parseUnsigned_whole ['0'] [] false (List.forall_mem_singleton.mpr rfl)
      (List.cons_ne_nil _ _) ends_nil
    rw [text, zero, Shortest.text, (N.parseFloat_unsigned ⟨'0', [], rfl, by decide⟩).1]
    exact read.trans (N.ofDecimal_zero x false _ zero)
  · have first := decimalText_first s e
    have read := parseUnsigned_decimalText shortest
    rw [text, shortest, Shortest.text]
    cases negative with
    | false => exact (N.parseFloat_unsigned first).1.trans read
    | true => exact (N.parseFloat_unsigned first).2.trans read

/-- A sign and digits. -/
def signed (negative : Bool) (digits : List Char) : List Char :=
  (if negative then ['-'] else []) ++ digits

/-- How an integer is printed without an exponent. -/
theorem text_whole {x : N.Number} (whole : N.Whole x) (plain : (N.shortest x).Plain) :
    ∃ negative digits, N.text x = signed negative digits ∧ digits ≠ [] ∧
      (∀ c ∈ digits, c.isDigit = true) ∧
      N.ofDecimal negative (Nat.ofDigitChars 10 digits 0) 0 = x := by
  rcases whole with zero | ⟨negative, s, e, shortest, positive⟩
  · refine ⟨false, ['0'], ?_, List.cons_ne_nil _ _, List.forall_mem_singleton.mpr rfl,
      N.ofDecimal_zero x false 0 zero⟩
    rw [text, zero]
    rfl
  · rw [shortest] at plain
    refine ⟨negative, Nat.toDigits 10 s ++ List.replicate e.toNat '0', ?_,
      List.append_ne_nil_of_left_ne_nil Nat.toDigits_ne_nil _, fun c member => ?_, ?_⟩
    · have printed : Shortest.decimalText s e = Nat.toDigits 10 s ++ List.replicate e.toNat '0' :=
        if_pos ⟨positive, plain.2⟩
      rw [text, shortest, Shortest.text, printed, signed]
    · rcases List.mem_append.mp member with front | zeros
      · exact isDigit_of_mem c front
      · rw [(List.mem_replicate.mp zeros).2]
        decide
    · rw [Nat.ofDigitChars_append, Nat.ofDigitChars_ten_toDigits, Nat.ofDigitChars_replicate_zero,
        Nat.mul_comm, N.ofDecimal_scale, ← N.ofDecimal_shortest x negative s e shortest]
      congr 1
      omega

theorem parseInt_signed {negative : Bool} {digits : List Char} (some_ : digits ≠ [])
    (all : ∀ c ∈ digits, c.isDigit = true) :
    N.parseInt (signed negative digits) = N.ofDecimal negative (Nat.ofDigitChars 10 digits 0) 0 := by
  have whole : digits.takeWhile Char.isDigit = digits := by
    have taken := ends_nil.takeWhile all
    rwa [List.append_nil] at taken
  obtain ⟨c, more, rfl⟩ := List.exists_cons_of_ne_nil some_
  have digit := all c List.mem_cons_self
  cases negative with
  | false =>
    have text : signed false (c :: more) = c :: more := rfl
    rw [text]
    unfold parseInt
    rw [List.dropWhile_cons_of_neg (by rw [not_isWhite_of_isDigit digit]; decide)]
    split
    next same => exact absurd (List.cons.inj same).1 (isDigit_ne digit).1
    next same => exact absurd (List.cons.inj same).1 (isDigit_ne digit).2
    next => rw [parseDigits, whole, if_neg (List.cons_ne_nil _ _)]
  | true =>
    have text : signed true (c :: more) = '-' :: c :: more := rfl
    rw [text]
    unfold parseInt
    rw [List.dropWhile_cons_of_neg (by decide)]
    show N.parseDigits true (c :: more) = _
    rw [parseDigits, whole, if_neg (List.cons_ne_nil _ _)]

/-- The characters of a decimal without an exponent. -/
def isDecimalChar (c : Char) : Bool := c.isDigit || c == '.' || c == '-'

/-- The characters of all that is printed for a number. -/
def isNumberChar (c : Char) : Bool := isDecimalChar c || c == '+' || c ∈ "eInfityNa".toList

theorem isDecimalChar_of_isDigit {c : Char} (digit : c.isDigit = true) : isDecimalChar c = true := by
  rw [isDecimalChar, digit, Bool.true_or, Bool.true_or]

/-- Digits behind a point, or nothing. -/
def IsFraction (fraction : List Char) : Prop :=
  fraction = [] ∨ ∃ digits, fraction = '.' :: digits ∧ digits ≠ [] ∧ ∀ c ∈ digits, c.isDigit = true

theorem decimalText_plain {s : Nat} {e : Int} (least : -6 < (Nat.toDigits 10 s).length + e)
    (most : (Nat.toDigits 10 s).length + e ≤ 21) :
    ∃ whole fraction, Shortest.decimalText s e = whole ++ fraction ∧ whole ≠ [] ∧
      (∀ c ∈ whole, c.isDigit = true) ∧ IsFraction fraction := by
  have digits := @isDigit_of_mem s
  have some_ : Nat.toDigits 10 s ≠ [] := Nat.toDigits_ne_nil
  have positive : 0 < (Nat.toDigits 10 s).length := List.length_pos_iff.mpr some_
  simp only [Shortest.decimalText]
  split
  next large =>
    refine ⟨_, [], (List.append_nil _).symm, List.append_ne_nil_of_left_ne_nil some_ _, fun c member => ?_,
      .inl rfl⟩
    rcases List.mem_append.mp member with front | zeros
    · exact digits c front
    · rw [(List.mem_replicate.mp zeros).2]
      decide
  next =>
    split
    next within =>
      refine ⟨_, _, rfl, fun none_ => ?_, fun c member => digits c (List.mem_of_mem_take member),
        .inr ⟨_, rfl, fun none_ => ?_, fun c member => digits c (List.mem_of_mem_drop member)⟩⟩
      · have lengths := congrArg List.length none_
        rw [List.length_take, List.length_nil] at lengths
        omega
      · have lengths := congrArg List.length none_
        rw [List.length_drop, List.length_nil] at lengths
        omega
    next =>
      rw [if_pos ⟨least, by omega⟩]
      refine ⟨['0'], _, rfl, List.cons_ne_nil _ _, List.forall_mem_singleton.mpr rfl, .inr ⟨_, rfl,
        List.append_ne_nil_of_right_ne_nil _ some_, fun c member => ?_⟩⟩
      rcases List.mem_append.mp member with zeros | behind
      · rw [(List.mem_replicate.mp zeros).2]
        decide
      · exact digits c behind

/-- Printed without an exponent, a number is a sign, digits, and digits behind a point. -/
theorem text_plain {x : N.Number} (plain : (N.shortest x).Plain) :
    ∃ negative whole fraction, N.text x = signed negative (whole ++ fraction) ∧ whole ≠ [] ∧
      (∀ c ∈ whole, c.isDigit = true) ∧ IsFraction fraction := by
  cases shortest : N.shortest x with
  | nan =>
    rw [shortest] at plain
    exact plain.elim
  | infinity negative =>
    rw [shortest] at plain
    exact plain.elim
  | zero =>
    refine ⟨false, ['0'], [], ?_, List.cons_ne_nil _ _, List.forall_mem_singleton.mpr rfl, .inl rfl⟩
    rw [text, shortest]
    rfl
  | finite negative s e =>
    rw [shortest] at plain
    obtain ⟨whole, fraction, printed, some_, digits, behind⟩ := decimalText_plain plain.1 plain.2
    refine ⟨negative, whole, fraction, ?_, some_, digits, behind⟩
    rw [text, shortest, Shortest.text, printed, signed]

theorem decimalText_isNumberChar (s : Nat) (e : Int) :
    ∀ c ∈ Shortest.decimalText s e, isNumberChar c = true := by
  have digit {c : Char} (digit : c.isDigit = true) : isNumberChar c = true := by
    simp only [isNumberChar, isDecimalChar, digit, Bool.true_or]
  have zeros {c : Char} {n : Nat} (member : c ∈ List.replicate n '0') : isNumberChar c = true := by
    rw [(List.mem_replicate.mp member).2]
    decide
  have digits {n : Nat} {c : Char} (member : c ∈ Nat.toDigits 10 n) : isNumberChar c = true :=
    digit (isDigit_of_mem c member)
  intro c member
  simp only [Shortest.decimalText] at member
  split at member
  next =>
    rcases List.mem_append.mp member with front | behind
    · exact digits front
    · exact zeros behind
  next =>
    split at member
    next =>
      rcases List.mem_append.mp member with front | behind
      · exact digits (List.mem_of_mem_take front)
      · rcases List.mem_cons.mp behind with rfl | fraction
        · decide
        · exact digits (List.mem_of_mem_drop fraction)
    next =>
      split at member
      next =>
        rcases List.mem_cons.mp member with rfl | behind
        · decide
        · rcases List.mem_cons.mp behind with rfl | fraction
          · decide
          · rcases List.mem_append.mp fraction with front | rest
            · exact zeros front
            · exact digits rest
      next =>
        rcases List.mem_append.mp member with mantissa | exponent
        · rcases List.mem_append.mp mantissa with front | behind
          · exact digits (List.mem_of_mem_take front)
          · split at behind
            · exact absurd behind List.not_mem_nil
            · rcases List.mem_cons.mp behind with rfl | fraction
              · decide
              · exact digits (List.mem_of_mem_drop fraction)
        · rcases List.mem_cons.mp exponent with rfl | behind
          · decide
          · rcases List.mem_cons.mp behind with rfl | number
            · split
              · decide
              · decide
            · exact digits number

theorem text_isNumberChar (x : N.Number) : ∀ c ∈ N.text x, isNumberChar c = true := by
  have sign {negative : Bool} {c : Char} (member : c ∈ (if negative then ['-'] else [])) :
      isNumberChar c = true := by
    split at member
    · rw [List.mem_singleton.mp member]
      decide
    · exact absurd member List.not_mem_nil
  intro c member
  rw [text] at member
  cases shortest : N.shortest x with
  | nan =>
    have all : ∀ c ∈ "NaN".toList, isNumberChar c = true := List.all_eq_true.mp (by decide)
    rw [shortest] at member
    exact all c member
  | infinity negative =>
    rw [shortest] at member
    rcases List.mem_append.mp member with front | name
    · exact sign front
    · have all : ∀ c ∈ "Infinity".toList, isNumberChar c = true := List.all_eq_true.mp (by decide)
      exact all c name
  | zero =>
    rw [shortest] at member
    rw [List.mem_singleton.mp member]
    decide
  | finite negative s e =>
    rw [shortest] at member
    rcases List.mem_append.mp member with front | number
    · exact sign front
    · exact decimalText_isNumberChar s e c number

/-- A number with an exponent has a character that no decimal has. -/
theorem plain_of_isDecimalChar {x : N.Number} (decimal : ∀ c ∈ N.text x, isDecimalChar c = true) :
    (N.shortest x).Plain := by
  rw [text] at decimal
  cases shortest : N.shortest x with
  | nan =>
    rw [shortest] at decimal
    exact absurd (decimal 'N' (by decide)) (by decide)
  | infinity negative =>
    rw [shortest] at decimal
    exact absurd (decimal 'I' (List.mem_append_right _ (by decide))) (by decide)
  | zero => trivial
  | finite negative s e =>
    rw [shortest] at decimal
    have positive : 0 < (Nat.toDigits 10 s).length := List.length_pos_iff.mpr Nat.toDigits_ne_nil
    by_contra exponent
    simp only [Shortest.Plain, not_and_or, Int.not_lt, Int.not_le] at exponent
    have printed : 'e' ∈ Shortest.decimalText s e := by
      simp only [Shortest.decimalText]
      rw [if_neg (by omega), if_neg (by omega), if_neg (by omega)]
      exact List.mem_append_right _ List.mem_cons_self
    exact absurd (decimal 'e' (List.mem_append_right _ printed)) (by decide)

end Numbers

end LotusKit.Editor

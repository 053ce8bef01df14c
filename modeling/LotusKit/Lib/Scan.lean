import Mathlib.Data.List.TakeDrop
import Mathlib.Tactic.Common
import Mathlib.Algebra.Group.Nat.Defs

/-! Scanning text from the front: literal words, runs of one kind of character, and decimal
numbers as `%d` prints them. -/

namespace LotusKit.Lib.Scan

/-- Equality of texts decides whether a text is in a list of them. -/
instance lawfulBEqText : LawfulBEq (List Char) := inferInstance

/-- The rest of the text after `word`. -/
def expect (word text : List Char) : Option (List Char) :=
  if word.isPrefixOf text then some (text.drop word.length) else none

theorem expect_append (word rest : List Char) : expect word (word ++ rest) = some rest := by
  rw [expect, if_pos (by simp), List.drop_left]

theorem expect_cons_ne {c d : Char} (different : c ≠ d) (word rest : List Char) :
    expect (c :: word) (d :: rest) = none := by
  rw [expect, if_neg (by simp [List.isPrefixOf, different])]

theorem eq_append_of_expect {word text rest : List Char} (found : expect word text = some rest) :
    text = word ++ rest := by
  unfold expect at found
  split at found
  next isPrefix =>
    obtain ⟨tail, rfl⟩ := List.isPrefixOf_iff_prefix.mp isPrefix
    rw [List.drop_left] at found
    rw [Option.some.inj found]
  next => cases found

theorem toNat_of_isUpper {c : Char} (upper : c.isUpper = true) : 65 ≤ c.toNat ∧ c.toNat ≤ 90 :=
  have range : 'A'.val ≤ c.val ∧ c.val ≤ 'Z'.val := of_decide_eq_true upper
  range

theorem toNat_of_isLower {c : Char} (lower : c.isLower = true) : 97 ≤ c.toNat ∧ c.toNat ≤ 122 :=
  have range : ('a'.val ≤ c.val && c.val ≤ 'z'.val) = true := lower
  ⟨of_decide_eq_true (Bool.and_eq_true_iff.mp range).1, of_decide_eq_true (Bool.and_eq_true_iff.mp range).2⟩

/-- The text does not go on with a character of the kind. -/
def Ends (kind : Char → Bool) (text : List Char) : Prop := ∀ c ∈ text.head?, kind c = false

section Ends
variable {kind : Char → Bool} {word rest : List Char}

theorem ends_nil : Ends kind [] := nofun

theorem ends_cons {c : Char} (other : kind c = false) (text : List Char) : Ends kind (c :: text) := by
  intro d first
  cases first
  exact other

theorem ends_dropWhile (kind : Char → Bool) (text : List Char) : Ends kind (text.dropWhile kind) := by
  intro c first
  have other := List.head?_dropWhile_not kind text
  rw [first] at other
  exact other

theorem Ends.takeWhile (ends : Ends kind rest) (all : ∀ c ∈ word, kind c = true) :
    (word ++ rest).takeWhile kind = word := by
  have none : rest.takeWhile kind = [] := by
    cases rest with
    | nil => rfl
    | cons c rest => rw [List.takeWhile_cons_of_neg (by simp [ends c rfl])]
  rw [List.takeWhile_append_of_pos all, none, List.append_nil]

theorem Ends.dropWhile (ends : Ends kind rest) (all : ∀ c ∈ word, kind c = true) :
    (word ++ rest).dropWhile kind = rest := by
  rw [List.dropWhile_append_of_pos all]
  cases rest with
  | nil => rfl
  | cons c rest => rw [List.dropWhile_cons_of_neg (by simp [ends c rfl])]

/-- Texts are cut alike at the first character of a kind. -/
theorem eq_of_append_cons {c : Char} {u v s t : List Char} (once : c ∉ u) (once' : c ∉ v)
    (same : u ++ c :: s = v ++ c :: t) : u = v ∧ s = t := by
  have ends (text : List Char) : Ends (· != c) (c :: text) := ends_cons (by rw [bne_self_eq_false]) text
  have other {w : List Char} (without : c ∉ w) : ∀ d ∈ w, (d != c) = true := by
    intro d member
    rw [bne_iff_ne]
    rintro rfl
    exact without member
  have front := congrArg (List.takeWhile (· != c)) same
  rw [(ends s).takeWhile (other once), (ends t).takeWhile (other once')] at front
  subst front
  exact ⟨rfl, (List.cons.inj (List.append_cancel_left same)).2⟩

end Ends

/-- `%d`. -/
def showInt (n : Int) : List Char :=
  if n < 0 then '-' :: Nat.toDigits 10 n.natAbs else Nat.toDigits 10 n.natAbs

/-- The digits at the front, if there are any, and the rest. -/
def scanNat (text : List Char) : Option (Nat × List Char) :=
  if text.takeWhile Char.isDigit = [] then none
  else some (Nat.ofDigitChars 10 (text.takeWhile Char.isDigit) 0, text.dropWhile Char.isDigit)

def scanInt (text : List Char) : Option (Int × List Char) :=
  match text with
  | '-' :: rest => (scanNat rest).map fun scanned => (-(scanned.1 : Int), scanned.2)
  | _ => (scanNat text).map fun scanned => ((scanned.1 : Int), scanned.2)

variable {rest : List Char}

theorem isDigit_of_mem {n : Nat} : ∀ c ∈ Nat.toDigits 10 n, c.isDigit = true := by
  intro c member
  exact Nat.isDigit_of_mem_toDigits (by decide) (by decide) member

theorem scanNat_toDigits (n : Nat) (ends : Ends Char.isDigit rest) :
    scanNat (Nat.toDigits 10 n ++ rest) = some (n, rest) := by
  rw [scanNat, ends.takeWhile isDigit_of_mem, ends.dropWhile isDigit_of_mem,
    if_neg Nat.toDigits_ne_nil, Nat.ofDigitChars_ten_toDigits]

/-- A printed number starts with a digit or a sign. -/
theorem exists_toDigits_eq_cons (n : Nat) :
    ∃ c more, Nat.toDigits 10 n = c :: more ∧ c.isDigit = true := by
  cases digits : Nat.toDigits 10 n with
  | nil => exact absurd digits Nat.toDigits_ne_nil
  | cons c more => exact ⟨c, more, rfl, isDigit_of_mem c (digits ▸ List.mem_cons_self)⟩

/-- A number is printed without zeros in front. -/
theorem head?_toDigits {n : Nat} (positive : 0 < n) : (Nat.toDigits 10 n).head? ≠ some '0' := by
  induction n using Nat.strongRecOn with
  | ind n ih =>
    by_cases small : n < 10
    · have digits : ∀ d < 10, 0 < d → Nat.digitChar d ≠ '0' := by decide
      rw [Nat.toDigits_of_lt_base small]
      intro zero
      exact digits n small positive (Option.some.inj zero)
    · have front := ih (n / 10) (by omega) (by omega)
      obtain ⟨c, more, digits, -⟩ := exists_toDigits_eq_cons (n / 10)
      rw [Nat.toDigits_of_base_le (by decide) (by omega), digits]
      rwa [digits] at front

/-- What was printed is read back. -/
theorem scanInt_showInt (n : Int) (ends : Ends Char.isDigit rest) :
    scanInt (showInt n ++ rest) = some (n, rest) := by
  by_cases negative : n < 0
  · have value : -(n.natAbs : Int) = n := by omega
    simp only [showInt, if_pos negative, List.cons_append, scanInt,
      scanNat_toDigits n.natAbs ends, Option.map_some, value]
  · have value : (n.natAbs : Int) = n := by omega
    obtain ⟨c, more, digits, digit⟩ := exists_toDigits_eq_cons n.natAbs
    have unsigned : c ≠ '-' := by
      rintro rfl
      exact absurd digit (by decide)
    have scanned := scanNat_toDigits n.natAbs ends
    rw [showInt, if_neg negative]
    rw [digits] at scanned ⊢
    unfold scanInt
    split
    · next tail same => exact absurd (List.cons.inj same).1 unsigned
    · rw [scanned, Option.map_some, value]

/-- A number of so many digits takes one more character at most, for the sign. -/
theorem length_showInt_le {n : Int} {digits : Nat} (positive : 0 < digits)
    (small : n.natAbs < 10 ^ digits) : (showInt n).length ≤ digits + 1 := by
  have fits : (Nat.toDigits 10 n.natAbs).length ≤ digits :=
    (Nat.length_toDigits_le_iff (by decide) positive).mpr small
  unfold showInt
  split
  · rw [List.length_cons]
    omega
  · omega

/-- What is in no part and not between them is not in what they are joined to. -/
theorem not_mem_intercalate {α : Type*} {c : α} {apart : List α} (between : c ∉ apart) {texts : List (List α)}
    (without : ∀ text ∈ texts, c ∉ text) : c ∉ apart.intercalate texts := by
  induction texts with
  | nil => exact List.not_mem_nil
  | cons text texts ih =>
    have own := without text List.mem_cons_self
    have rest := ih fun other later => without other (List.mem_cons_of_mem text later)
    cases texts with
    | nil => rwa [List.intercalate_singleton]
    | cons next texts =>
      rw [List.intercalate_cons_cons, List.mem_append, List.mem_append, not_or, not_or]
      exact ⟨⟨own, between⟩, rest⟩

end LotusKit.Lib.Scan

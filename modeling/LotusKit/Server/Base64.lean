import Mathlib.Data.List.Basic

/-! Base64: the browser encodes, and the vendored decoder undoes it. -/

namespace LotusKit.Server

def base64_chars : List Char :=
  "ABCDEFGHIJKLMNOPQRSTUVWXYZabcdefghijklmnopqrstuvwxyz0123456789+/".toList

def is_base64 (c : Char) : Bool :=
  c.toNat = 43 ∨ (47 ≤ c.toNat ∧ c.toNat ≤ 57) ∨ (65 ≤ c.toNat ∧ c.toNat ≤ 90) ∨
    (97 ≤ c.toNat ∧ c.toNat ≤ 122)

/-- `static_cast<unsigned char>(base64_chars.find(c))`, where `npos` becomes 255. -/
def find (c : Char) : Nat :=
  if c ∈ base64_chars then base64_chars.idxOf c else 255

/-- `char_array_3` from the four sextets of `char_array_4`. -/
def char_array_3 (s0 s1 s2 s3 : Nat) : List UInt8 :=
  [UInt8.ofNat ((s0 <<< 2) + ((s1 &&& 0x30) >>> 4)),
    UInt8.ofNat (((s1 &&& 0xf) <<< 4) + ((s2 &&& 0x3c) >>> 2)),
    UInt8.ofNat (((s2 &&& 0x3) <<< 6) + s3)]

/-- The loop of `base64_decode`: `char_array_4` fills up and is decoded when it is full. -/
def decodeLoop : List Char → List Char → List UInt8 → List Char × List UInt8
  | [], char_array_4, ret => (char_array_4, ret)
  | c :: input, char_array_4, ret =>
    if c ≠ '=' ∧ is_base64 c = true then
      match char_array_4 with
      | [c0, c1, c2] => decodeLoop input [] (ret ++ char_array_3 (find c0) (find c1) (find c2) (find c))
      | _ => decodeLoop input (char_array_4 ++ [c]) ret
    else (char_array_4, ret)

/-- What is left in `char_array_4` in the end, filled up with zeros. -/
def decodeRest (char_array_4 : List Char) : List UInt8 :=
  let c (j : Nat) := find (char_array_4.getD j '\x00')
  (char_array_3 (c 0) (c 1) (c 2) (c 3)).take (char_array_4.length - 1)

def base64_decode (input : List Char) : List UInt8 :=
  let (char_array_4, ret) := decodeLoop input [] []
  ret ++ decodeRest char_array_4

/-- The character of a sextet. -/
def sextet (n : Nat) : Char := base64_chars.getD n 'A'

/-- `window.btoa`. -/
def btoa : List UInt8 → List Char
  | a :: b :: c :: bytes =>
    [sextet (a.toNat / 4), sextet (a.toNat % 4 * 16 + b.toNat / 16),
      sextet (b.toNat % 16 * 4 + c.toNat / 64), sextet (c.toNat % 64)] ++ btoa bytes
  | [a, b] =>
    [sextet (a.toNat / 4), sextet (a.toNat % 4 * 16 + b.toNat / 16), sextet (b.toNat % 16 * 4), '=']
  | [a] => [sextet (a.toNat / 4), sextet (a.toNat % 4 * 16), '=', '=']
  | [] => []

theorem sextet_spec {n : Nat} (small : n < 64) :
    sextet n ≠ '=' ∧ is_base64 (sextet n) = true ∧ find (sextet n) = n := by
  have all : ∀ n < 64, sextet n ≠ '=' ∧ is_base64 (sextet n) = true ∧ find (sextet n) = n := by
    decide +kernel
  exact all n small

/-- The bit operations of the decoder in terms of arithmetic. -/
theorem sextet_bits {n : Nat} (small : n < 64) :
    (n &&& 0x30) >>> 4 = n / 16 ∧ n &&& 0xf = n % 16 ∧ (n &&& 0x3c) >>> 2 = n / 4 ∧ n &&& 0x3 = n % 4 := by
  have all : ∀ n < 64, (n &&& 0x30) >>> 4 = n / 16 ∧ n &&& 0xf = n % 16 ∧ (n &&& 0x3c) >>> 2 = n / 4 ∧
      n &&& 0x3 = n % 4 := by
    decide +kernel
  exact all n small

theorem char_array_3_eq {s0 s1 s2 : Nat} (small1 : s1 < 64) (small2 : s2 < 64) (s3 : Nat) :
    char_array_3 s0 s1 s2 s3 = [UInt8.ofNat (s0 * 4 + s1 / 16), UInt8.ofNat (s1 % 16 * 16 + s2 / 4),
      UInt8.ofNat (s2 % 4 * 64 + s3)] := by
  obtain ⟨high1, low1, -, -⟩ := sextet_bits small1
  obtain ⟨-, -, high2, low2⟩ := sextet_bits small2
  rw [char_array_3, high1, low1, high2, low2, Nat.shiftLeft_eq, Nat.shiftLeft_eq, Nat.shiftLeft_eq]

/-- A character of the alphabet is taken in. -/
theorem decodeLoop_sextet {n : Nat} (small : n < 64) (input char_array_4 : List Char)
    (ret : List UInt8) (room : char_array_4.length < 3) :
    decodeLoop (sextet n :: input) char_array_4 ret = decodeLoop input (char_array_4 ++ [sextet n]) ret := by
  obtain ⟨notPad, valid, -⟩ := sextet_spec small
  rw [decodeLoop, if_pos ⟨notPad, valid⟩]
  intro c0 c1 c2 full
  rw [full] at room
  exact absurd room (by simp)

theorem decodeLoop_pad (input char_array_4 : List Char) (ret : List UInt8) :
    decodeLoop ('=' :: input) char_array_4 ret = (char_array_4, ret) := by
  unfold decodeLoop
  exact if_neg (by simp)

/-- Four characters make three bytes. -/
theorem decodeLoop_quad {s0 s1 s2 s3 : Nat} (small0 : s0 < 64) (small1 : s1 < 64) (small2 : s2 < 64)
    (small3 : s3 < 64) (input : List Char) (ret : List UInt8) :
    decodeLoop ([sextet s0, sextet s1, sextet s2, sextet s3] ++ input) [] ret =
      decodeLoop input [] (ret ++ char_array_3 s0 s1 s2 s3) := by
  obtain ⟨-, -, found0⟩ := sextet_spec small0
  obtain ⟨-, -, found1⟩ := sextet_spec small1
  obtain ⟨-, -, found2⟩ := sextet_spec small2
  obtain ⟨notPad, valid, found3⟩ := sextet_spec small3
  simp only [List.cons_append, List.nil_append]
  rw [decodeLoop_sextet small0 _ _ _ (by simp), decodeLoop_sextet small1 _ _ _ (by simp),
    decodeLoop_sextet small2 _ _ _ (by simp)]
  simp only [List.nil_append, List.cons_append, decodeLoop, notPad, valid, ne_eq, not_false_eq_true,
    and_self, if_true, found0, found1, found2, found3]

theorem ofNat_eq {n : Nat} {b : UInt8} (same : n = b.toNat) : UInt8.ofNat n = b := by
  rw [same, UInt8.ofNat_toNat]

/-- Decoding undoes encoding, whatever was decoded before. -/
theorem decodeLoop_btoa (bytes ret : List UInt8) :
    (decodeLoop (btoa bytes) [] ret).2 ++ decodeRest (decodeLoop (btoa bytes) [] ret).1 =
      ret ++ bytes := by
  induction bytes using btoa.induct generalizing ret with
  | case1 a b c bytes ih =>
    have bounds := And.intro a.toNat_lt (And.intro b.toNat_lt c.toNat_lt)
    rw [btoa, decodeLoop_quad (by omega) (by omega) (by omega) (by omega), ih]
    have group : char_array_3 (a.toNat / 4) (a.toNat % 4 * 16 + b.toNat / 16)
        (b.toNat % 16 * 4 + c.toNat / 64) (c.toNat % 64) = [a, b, c] := by
      rw [char_array_3_eq (by omega) (by omega), @ofNat_eq _ a (by omega), @ofNat_eq _ b (by omega),
        @ofNat_eq _ c (by omega)]
    rw [group, List.append_assoc]
    rfl
  | case2 a b =>
    have bounds := And.intro a.toNat_lt b.toNat_lt
    have small0 : a.toNat / 4 < 64 := by omega
    have small1 : a.toNat % 4 * 16 + b.toNat / 16 < 64 := by omega
    have small2 : b.toNat % 16 * 4 < 64 := by omega
    rw [btoa, decodeLoop_sextet small0 _ _ _ (by simp), decodeLoop_sextet small1 _ _ _ (by simp),
      decodeLoop_sextet small2 _ _ _ (by simp), decodeLoop_pad]
    have rest : decodeRest ([] ++ [sextet (a.toNat / 4)] ++ [sextet (a.toNat % 4 * 16 + b.toNat / 16)] ++
        [sextet (b.toNat % 16 * 4)]) = [a, b] := by
      obtain ⟨-, -, found0⟩ := sextet_spec small0
      obtain ⟨-, -, found1⟩ := sextet_spec small1
      obtain ⟨-, -, found2⟩ := sextet_spec small2
      simp only [decodeRest, List.nil_append, List.cons_append, List.getD_cons_zero,
        List.getD_cons_succ, List.length_cons, List.length_nil, found0, found1, found2]
      rw [char_array_3_eq small1 small2, @ofNat_eq _ a (by omega), @ofNat_eq _ b (by omega)]
      rfl
    rw [rest]
  | case3 a =>
    have bound := a.toNat_lt
    have small0 : a.toNat / 4 < 64 := by omega
    have small1 : a.toNat % 4 * 16 < 64 := by omega
    rw [btoa, decodeLoop_sextet small0 _ _ _ (by simp), decodeLoop_sextet small1 _ _ _ (by simp),
      decodeLoop_pad]
    have rest : decodeRest ([] ++ [sextet (a.toNat / 4)] ++ [sextet (a.toNat % 4 * 16)]) = [a] := by
      obtain ⟨-, -, found0⟩ := sextet_spec small0
      obtain ⟨-, -, found1⟩ := sextet_spec small1
      obtain ⟨high1, -, -, -⟩ := sextet_bits small1
      simp only [decodeRest, List.nil_append, List.cons_append, List.getD_cons_zero,
        List.getD_cons_succ, List.length_cons, List.length_nil, found0, found1, char_array_3, high1,
        Nat.shiftLeft_eq]
      rw [@ofNat_eq _ a (by omega)]
      rfl
    rw [rest]
  | case4 => simp only [btoa, decodeLoop, decodeRest, List.length_nil, Nat.zero_sub, List.take_zero]

theorem base64_decode_btoa (bytes : List UInt8) : base64_decode (btoa bytes) = bytes :=
  (decodeLoop_btoa bytes []).trans (List.nil_append _)

end LotusKit.Server

import Mathlib.Data.BitVec
import Mathlib.Data.List.Basic
import Mathlib.Tactic.Common
import LotusKit.Lib.Bytes

/-! SHA-1 of a list of bytes: the padded message, its blocks of sixteen big-endian words, the
message schedule as a recurrence, and the chaining value. Below it, the schedule that is written
into an array round by round. -/

namespace LotusKit.Lib.Sha1
open LotusKit.Lib.Bytes

abbrev Word := BitVec 32

/-- The five words of the chaining value, and of the working variables. -/
@[ext] structure Chain where
  a : Word
  b : Word
  c : Word
  d : Word
  e : Word
  deriving DecidableEq

namespace Chain

def initial : Chain := ⟨0x67452301, 0xefcdab89, 0x98badcfe, 0x10325476, 0xc3d2e1f0⟩

def add (s t : Chain) : Chain := ⟨s.a + t.a, s.b + t.b, s.c + t.c, s.d + t.d, s.e + t.e⟩

def words (s : Chain) : List Word := [s.a, s.b, s.c, s.d, s.e]

end Chain

section Rounds

def ch (x y z : Word) : Word := (x &&& y) ^^^ (~~~x &&& z)

def parity (x y z : Word) : Word := x ^^^ y ^^^ z

def maj (x y z : Word) : Word := (x &&& y) ^^^ (x &&& z) ^^^ (y &&& z)

def mix (t : Nat) : Word → Word → Word → Word :=
  if t < 20 then ch else if t < 40 then parity else if t < 60 then maj else parity

def constant (t : Nat) : Word :=
  if t < 20 then 0x5a827999 else if t < 40 then 0x6ed9eba1 else if t < 60 then 0x8f1bbcdc else 0xca62c1d6

/-- The words after the sixteen of the block. -/
def schedule (block : Nat → Word) (t : Nat) : Word :=
  if t < 16 then block t
  else (schedule block (t - 3) ^^^ schedule block (t - 8) ^^^ schedule block (t - 14) ^^^
    schedule block (t - 16)).rotateLeft 1
termination_by t

def round (w : Nat → Word) (s : Chain) (t : Nat) : Chain where
  a := s.a.rotateLeft 5 + mix t s.b s.c s.d + s.e + constant t + w t
  b := s.a
  c := s.b.rotateLeft 30
  d := s.c
  e := s.d

def compress (s : Chain) (block : Nat → Word) : Chain :=
  s.add ((List.range 80).foldl (round (schedule block)) s)

end Rounds

section Message

/-- Four bytes, the first one on top. -/
def bigWord (bytes : Nat → UInt8) : Word :=
  (bytes 0).toBitVec ++ (bytes 1).toBitVec ++ (bytes 2).toBitVec ++ (bytes 3).toBitVec

/-- Block `n` of a message that is given byte by byte. -/
def blockAt (bytes : Nat → UInt8) (n : Nat) : Nat → Word :=
  fun i => bigWord fun k => bytes (64 * n + 4 * i + k)

/-- How many zeros there are between the marker and the length. -/
def zeros (n : Nat) : Nat := (119 - n % 64) % 64

def pad (message : List UInt8) : List UInt8 :=
  message ++ 0x80 :: (List.replicate (zeros message.length) 0 ++ toBigEndian 8 (8 * message.length))

def chain (bytes : Nat → UInt8) (blocks : Nat) : Chain :=
  (List.range blocks).foldl (fun s n => compress s (blockAt bytes n)) Chain.initial

def sha1 (message : List UInt8) : List UInt8 :=
  (chain ((pad message).getD · 0) ((pad message).length / 64)).words.flatMap fun w => toBigEndian 4 w.toNat

end Message

section Words
variable {bytes bytes' : Nat → UInt8}

theorem bigWord_congr (same : ∀ k < 4, bytes k = bytes' k) : bigWord bytes = bigWord bytes' := by
  simp only [bigWord, same 0 (by decide), same 1 (by decide), same 2 (by decide), same 3 (by decide)]

theorem getLsbD_bigWord (bytes : Nat → UInt8) {i : Nat} (inside : i < 32) :
    (bigWord bytes).getLsbD i = (bytes (3 - i / 8)).toBitVec.getLsbD (i % 8) := by
  simp only [bigWord, BitVec.getLsbD_append]
  rcases Nat.lt_or_ge i 8 with lowest | above
  · simp [lowest, Nat.div_eq_of_lt lowest, Nat.mod_eq_of_lt lowest]
  have second : ¬i < 8 := by omega
  rcases Nat.lt_or_ge i 16 with low | above'
  · have place : i / 8 = 1 ∧ i % 8 = i - 8 ∧ i - 8 < 8 := by omega
    simp [second, place]
  rcases Nat.lt_or_ge i 24 with high | top
  · have place : i / 8 = 2 ∧ i % 8 = i - 8 - 8 ∧ ¬i - 8 < 8 ∧ i - 8 - 8 < 8 := by omega
    simp [second, place]
  · have place : i / 8 = 3 ∧ i % 8 = i - 8 - 8 - 8 ∧ ¬i - 8 < 8 ∧ ¬i - 8 - 8 < 8 := by omega
    simp [second, place]

theorem toNat_append_byte {n : Nat} (x : BitVec n) (b : UInt8) :
    (x ++ b.toBitVec).toNat = x.toNat * 256 + b.toNat := by
  rw [BitVec.toNat_append, ← Nat.shiftLeft_add_eq_or_of_lt b.toBitVec.isLt, Nat.shiftLeft_eq, UInt8.toNat_toBitVec]

theorem toNat_bigWord (bytes : Nat → UInt8) : (bigWord bytes).toNat =
    (((bytes 0).toNat * 256 + (bytes 1).toNat) * 256 + (bytes 2).toNat) * 256 + (bytes 3).toNat := by
  simp only [bigWord, toNat_append_byte, UInt8.toNat_toBitVec]

/-- A byte that comes to a word where there is none yet. -/
theorem bigWord_or {k : Nat} (small : k < 4) (free : bytes k = 0) (b : UInt8) :
    bigWord bytes ||| (b.toBitVec.setWidth 32 <<< (8 * (3 - k))) =
      bigWord fun j => if j = k then b else bytes j := by
  apply BitVec.eq_of_getLsbD_eq
  intro i inside
  rw [BitVec.getLsbD_or, getLsbD_bigWord _ inside, getLsbD_bigWord _ inside, BitVec.getLsbD_shiftLeft,
    BitVec.getLsbD_setWidth]
  by_cases here : 3 - i / 8 = k
  · have low : ¬i < 8 * (3 - k) := by omega
    have position : i - 8 * (3 - k) = i % 8 := by omega
    have within : i % 8 < 32 := by omega
    simp [here, free, low, position, inside, within]
  · rw [if_neg here]
    by_cases low : i < 8 * (3 - k)
    · simp [low]
    · have high : 8 ≤ i - 8 * (3 - k) := by omega
      rw [BitVec.getLsbD_of_ge _ _ high]
      simp

/-- The four bytes of a word that is put together in one go. -/
theorem bigWord_eq (bytes : Nat → UInt8) : bigWord bytes =
    (bytes 3).toBitVec.setWidth 32 ||| ((bytes 2).toBitVec.setWidth 32 <<< 8) |||
      ((bytes 1).toBitVec.setWidth 32 <<< 16) ||| ((bytes 0).toBitVec.setWidth 32 <<< 24) := by
  have none_ : bigWord (fun _ => 0) = 0#32 := by decide
  symm
  calc
    _ = bigWord (fun _ => 0) ||| ((bytes 3).toBitVec.setWidth 32 <<< (8 * (3 - 3))) |||
        ((bytes 2).toBitVec.setWidth 32 <<< (8 * (3 - 2))) ||| ((bytes 1).toBitVec.setWidth 32 <<< (8 * (3 - 1))) |||
        ((bytes 0).toBitVec.setWidth 32 <<< (8 * (3 - 0))) := by
      rw [none_, BitVec.zero_or, Nat.sub_self, Nat.mul_zero, BitVec.shiftLeft_zero]
    _ = _ := by
      rw [bigWord_or (by decide) rfl, bigWord_or (by decide) rfl, bigWord_or (by decide) rfl,
        bigWord_or (by decide) rfl]
    _ = bigWord bytes := by
      apply bigWord_congr
      intro k small
      have cases_ : k = 0 ∨ k = 1 ∨ k = 2 ∨ k = 3 := by omega
      rcases cases_ with rfl | rfl | rfl | rfl <;> rfl

end Words

section Pad
variable {message : List UInt8} {i : Nat}

theorem length_pad (message : List UInt8) : (pad message).length =
    64 * if message.length % 64 < 56 then message.length / 64 + 1 else message.length / 64 + 2 := by
  rw [pad, List.length_append, List.length_cons, List.length_append, List.length_replicate,
    length_toBigEndian, zeros]
  split <;> omega

theorem pad_message (inside : i < message.length) : (pad message).getD i 0 = message.getD i 0 := by
  rw [pad, List.getD_eq_getElem?_getD, List.getElem?_append_left inside, List.getD_eq_getElem?_getD]

/-- What follows the message. -/
theorem pad_behind (message : List UInt8) (i : Nat) : (pad message).getD (message.length + i) 0 =
    (0x80 :: (List.replicate (zeros message.length) 0 ++ toBigEndian 8 (8 * message.length))).getD i 0 := by
  rw [pad, List.getD_eq_getElem?_getD, List.getElem?_append_right (Nat.le_add_right _ _), Nat.add_sub_cancel_left,
    List.getD_eq_getElem?_getD]

theorem pad_marker (message : List UInt8) : (pad message).getD message.length 0 = 0x80 :=
  pad_behind message 0

theorem pad_zero (inside : i < zeros message.length) : (pad message).getD (message.length + 1 + i) 0 = 0 := by
  rw [Nat.add_assoc, Nat.add_comm 1, pad_behind, List.getD_cons_succ, List.getD_eq_getElem?_getD,
    List.getElem?_append_left (by rwa [List.length_replicate]), List.getElem?_replicate_of_lt inside, Option.getD_some]

theorem pad_length (message : List UInt8) (i : Nat) :
    (pad message).getD (message.length + 1 + zeros message.length + i) 0 =
      (toBigEndian 8 (8 * message.length)).getD i 0 := by
  rw [show message.length + 1 + zeros message.length + i = message.length + (zeros message.length + i + 1) by omega,
    pad_behind, List.getD_cons_succ, List.getD_eq_getElem?_getD,
    List.getElem?_append_right (by rw [List.length_replicate]; omega), List.length_replicate,
    Nat.add_sub_cancel_left, List.getD_eq_getElem?_getD]

/-- The message's length in bits stands in the last word. -/
theorem bigWord_length (message : List UInt8) :
    (bigWord fun k => (pad message).getD (message.length + 1 + zeros message.length + (4 + k)) 0) =
      BitVec.ofNat 32 (8 * message.length) := by
  simp only [pad_length]
  generalize 8 * message.length = n
  apply BitVec.eq_of_toNat_eq
  rw [toNat_bigWord, BitVec.toNat_ofNat]
  simp [toBigEndian]
  omega

/-- The word before it is for longer messages. -/
theorem bigWord_length_high (short : message.length < 2 ^ 29) :
    (bigWord fun k => (pad message).getD (message.length + 1 + zeros message.length + k) 0) = 0 := by
  simp only [pad_length]
  generalize size : 8 * message.length = n
  apply BitVec.eq_of_toNat_eq
  rw [toNat_bigWord]
  simp [toBigEndian]
  omega

end Pad

theorem chain_succ (bytes : Nat → UInt8) (n : Nat) :
    chain bytes (n + 1) = compress (chain bytes n) (blockAt bytes n) := by
  rw [chain, List.range_succ, List.foldl_append]
  rfl

theorem length_sha1 (message : List UInt8) : (sha1 message).length = 20 := by
  simp [sha1, Chain.words, Bytes.toBigEndian]

end LotusKit.Lib.Sha1

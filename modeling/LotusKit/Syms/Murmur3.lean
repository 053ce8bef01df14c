import LotusKit.Hashes.Info
import Mathlib.Data.Nat.Bitwise

/-! The hash by which a symbol is found while the game runs. It is the one that the tools compute
for the keys of the game's data. -/

namespace LotusKit.Syms
open LotusKit.Hashes

abbrev HashType := BitVec 32

namespace Murmur3

def C1 : HashType := 0xcc9e2d51#32
def C2 : HashType := 0x1b873593#32
def R1 : Nat := 15
def R2 : Nat := 13
def M : HashType := 5#32
def N : HashType := 0xe6546b64#32

/-- `m_H` and `m_Length`. -/
structure State where
  m_H : HashType
  m_Length : HashType

def Scramble (k : HashType) : HashType := (k * C1).rotateLeft R1 * C2

def Initialize (seed : HashType) : State := ⟨seed, 0#32⟩

def Update (s : State) (block : HashType) : State where
  m_H := (s.m_H ^^^ Scramble block).rotateLeft R2 * M + N
  m_Length := s.m_Length + 4#32

/-- A byte, as a wider integer. -/
def wide (b : UInt8) : HashType := b.toBitVec.setWidth 32

/-- The `switch` falls through from the last byte to the first. -/
def remainder : List UInt8 → HashType
  | [b0, b1, b2] => ((0#32 ^^^ wide b2 <<< 16) ^^^ wide b1 <<< 8) ^^^ wide b0
  | [b0, b1] => (0#32 ^^^ wide b1 <<< 8) ^^^ wide b0
  | [b0] => 0#32 ^^^ wide b0
  | _ => 0#32

def Finalize (s : State) (end_ : List UInt8) : HashType :=
  let m_H := if end_ = [] then s.m_H else s.m_H ^^^ Scramble (remainder end_)
  let m_Length := s.m_Length + BitVec.ofNat 32 (end_.length % 4)
  let h := m_H ^^^ m_Length
  let h := h ^^^ h >>> 16
  let h := h * 0x85ebca6b#32
  let h := h ^^^ h >>> 13
  let h := h * 0xc2b2ae35#32
  h ^^^ h >>> 16

/-- `std::bit_cast` of four bytes. -/
def block (b0 b1 b2 b3 : UInt8) : HashType := wide b3 <<< 24 ||| wide b2 <<< 16 ||| wide b1 <<< 8 ||| wide b0

/-- The blocks of four bytes, and what is left over. -/
def blocks : List UInt8 → List HashType × List UInt8
  | b0 :: b1 :: b2 :: b3 :: input => (block b0 b1 b2 b3 :: (blocks input).1, (blocks input).2)
  | end_ => ([], end_)

def Compute (input : List UInt8) : HashType :=
  Finalize ((blocks input).1.foldl Update (Initialize 0#32)) (blocks input).2

section Tools
variable (x : HashType)

theorem and_mask (n : Nat) : n &&& 0xFFFFFFFF = n % 2 ^ 32 := Nat.and_two_pow_sub_one_eq_mod n 32

/-- A rotation as the tools write it. -/
theorem toNat_rotate {r : Nat} (small : r < 32) :
    (x.rotateLeft r).toNat = (x.toNat <<< r ||| x.toNat >>> (32 - r)) &&& 0xFFFFFFFF := by
  have right : x.toNat >>> (32 - r) < 2 ^ 32 := by
    rw [Nat.shiftRight_eq_div_pow]
    exact Nat.lt_of_le_of_lt (Nat.div_le_self _ _) x.isLt
  rw [BitVec.toNat_rotateLeft, Nat.mod_eq_of_lt small, and_mask, Nat.or_mod_two_pow, Nat.mod_eq_of_lt right]

theorem toNat_Scramble : (Scramble x).toNat = scramble x.toNat := by
  have first : (0xcc9e2d51 * x.toNat) &&& 0xFFFFFFFF = (x * C1).toNat := by
    rw [and_mask, BitVec.toNat_mul, Nat.mul_comm]
    rfl
  simp only [scramble, first]
  rw [Scramble, BitVec.toNat_mul, R1, toNat_rotate _ (by decide), and_mask _, and_mask (0x1b873593 * _), Nat.mul_comm]
  rfl

/-- One block of four bytes. -/
theorem toNat_Update (s : State) (block : HashType) : (Update s block).m_H.toNat =
    (let h1 := s.m_H.toNat ^^^ scramble block.toNat
     let h1 := (h1 <<< 13 ||| h1 >>> 19) &&& 0xFFFFFFFF
     (h1 * 5 + 0xe6546b64) &&& 0xFFFFFFFF) := by
  have mixed : s.m_H.toNat ^^^ scramble block.toNat = (s.m_H ^^^ Scramble block).toNat := by
    rw [BitVec.toNat_xor, toNat_Scramble]
  simp only [mixed]
  rw [Update, ← toNat_rotate _ (by decide : 13 < 32), and_mask, BitVec.toNat_add, BitVec.toNat_mul, Nat.mod_add_mod]
  rfl

theorem toNat_wide (b : UInt8) : (wide b).toNat = b.toNat := by
  rw [wide, BitVec.toNat_setWidth_of_le (by decide)]
  rfl

theorem toNat_wide_shift (b : UInt8) {r : Nat} (small : r ≤ 24) : (wide b <<< r).toNat = b.toNat <<< r := by
  have inside : b.toNat <<< r < 2 ^ 32 := by
    rw [Nat.shiftLeft_eq]
    calc b.toNat * 2 ^ r < 2 ^ 8 * 2 ^ r := Nat.mul_lt_mul_of_pos_right b.toNat_lt (Nat.two_pow_pos r)
      _ ≤ 2 ^ 8 * 2 ^ 24 := Nat.mul_le_mul_left _ (Nat.pow_le_pow_right (by decide) small)
  rw [BitVec.toNat_shiftLeft, toNat_wide, Nat.mod_eq_of_lt inside]

theorem toNat_block (b0 b1 b2 b3 : UInt8) : (block b0 b1 b2 b3).toNat =
    b3.toNat <<< 24 ||| b2.toNat <<< 16 ||| b1.toNat <<< 8 ||| b0.toNat := by
  have third := toNat_wide_shift b3 (Nat.le_refl 24)
  have second := @toNat_wide_shift b2 16 (by decide)
  have first := @toNat_wide_shift b1 8 (by decide)
  simp only [block, BitVec.toNat_or, third, second, first, toNat_wide]

theorem toNat_mix (r : Nat) : (x ^^^ x >>> r).toNat = x.toNat ^^^ x.toNat >>> r := by
  rw [BitVec.toNat_xor, BitVec.toNat_ushiftRight]

theorem toNat_times (c : HashType) : (x * c).toNat = (x.toNat * c.toNat) &&& 0xFFFFFFFF := by
  rw [and_mask, BitVec.toNat_mul]

theorem toNat_final : (let h := x ^^^ x >>> 16
    let h := h * 0x85ebca6b#32
    let h := h ^^^ h >>> 13
    let h := h * 0xc2b2ae35#32
    h ^^^ h >>> 16).toNat = fmix x.toNat := by
  have first : (0x85ebca6b#32).toNat = 0x85ebca6b := by decide
  have second : (0xc2b2ae35#32).toNat = 0xc2b2ae35 := by decide
  unfold fmix
  simp only [toNat_mix, toNat_times, first, second]

theorem toNat_remainder {end_ : List UInt8} (short : end_.length < 4) :
    (if end_ = [] then x else x ^^^ Scramble (remainder end_)).toNat = murmurTail x.toNat (end_.map UInt8.toNat) := by
  have second (b : UInt8) := @toNat_wide_shift b 16 (by decide)
  have first (b : UInt8) := @toNat_wide_shift b 8 (by decide)
  match end_ with
  | [] => rfl
  | [b0] =>
    rw [if_neg (List.cons_ne_nil _ _), BitVec.toNat_xor, toNat_Scramble, remainder, BitVec.zero_xor, toNat_wide]
    rfl
  | [b0, b1] =>
    rw [if_neg (List.cons_ne_nil _ _), BitVec.toNat_xor, toNat_Scramble, remainder, BitVec.zero_xor, BitVec.toNat_xor,
      first, toNat_wide]
    rfl
  | [b0, b1, b2] =>
    rw [if_neg (List.cons_ne_nil _ _), BitVec.toNat_xor, toNat_Scramble, remainder, BitVec.zero_xor, BitVec.toNat_xor,
      BitVec.toNat_xor, second, first, toNat_wide]
    rfl
  | _ :: _ :: _ :: _ :: _ =>
    simp only [List.length_cons] at short
    omega

theorem toNat_Finalize {s : State} {end_ : List UInt8} (short : end_.length < 4)
    (small : s.m_Length.toNat + end_.length < 2 ^ 32) : (Finalize s end_).toNat =
      fmix (murmurTail s.m_H.toNat (end_.map UInt8.toNat) ^^^ (s.m_Length.toNat + end_.length)) := by
  have length : (s.m_Length + BitVec.ofNat 32 (end_.length % 4)).toNat = s.m_Length.toNat + end_.length := by
    rw [BitVec.toNat_add, BitVec.toNat_ofNat, Nat.mod_eq_of_lt short, Nat.mod_eq_of_lt (a := end_.length) (by omega),
      Nat.mod_eq_of_lt small]
  rw [Finalize, toNat_final, BitVec.toNat_xor, toNat_remainder _ short, length]

theorem length_Update {s : State} (small : s.m_Length.toNat + 4 < 2 ^ 32) (block : HashType) :
    (Update s block).m_Length.toNat = s.m_Length.toNat + 4 := by
  have four : (4#32).toNat = 4 := rfl
  have added : (Update s block).m_Length = s.m_Length + 4#32 := rfl
  rw [added, BitVec.toNat_add, four, Nat.mod_eq_of_lt small]

theorem murmurBody_block (s : State) (b0 b1 b2 b3 : UInt8) (input : List UInt8) :
    murmurBody s.m_H.toNat ((b0 :: b1 :: b2 :: b3 :: input).map UInt8.toNat) =
      murmurBody (Update s (block b0 b1 b2 b3)).m_H.toNat (input.map UInt8.toNat) := by
  rw [toNat_Update, toNat_block]
  simp only [List.map_cons, murmurBody]

/-- The loop over the blocks, as the tools write it. -/
theorem foldl_Update (input : List UInt8) {s : State} (small : s.m_Length.toNat + input.length < 2 ^ 32) :
    murmurBody s.m_H.toNat (input.map UInt8.toNat) =
        (((blocks input).1.foldl Update s).m_H.toNat, (blocks input).2.map UInt8.toNat) ∧
      ((blocks input).1.foldl Update s).m_Length.toNat + (blocks input).2.length =
        s.m_Length.toNat + input.length ∧ (blocks input).2.length < 4 := by
  match input with
  | [] => exact ⟨rfl, rfl, Nat.lt_add_of_pos_left (by decide)⟩
  | [_] => exact ⟨rfl, rfl, Nat.lt_add_of_pos_left (by decide)⟩
  | [_, _] => exact ⟨rfl, rfl, Nat.lt_add_of_pos_left (by decide)⟩
  | [_, _, _] => exact ⟨rfl, rfl, Nat.lt_add_of_pos_left (by decide)⟩
  | b0 :: b1 :: b2 :: b3 :: input =>
    simp only [List.length_cons] at small
    have length := @length_Update s (by omega) (block b0 b1 b2 b3)
    obtain ⟨body, whole, short⟩ := foldl_Update input (s := Update s (block b0 b1 b2 b3)) (by rw [length]; omega)
    rw [length] at whole
    have more : s.m_Length.toNat + 4 + input.length = s.m_Length.toNat + (b0 :: b1 :: b2 :: b3 :: input).length := by
      simp only [List.length_cons]
      omega
    rw [murmurBody_block, body]
    simp only [blocks, List.foldl_cons]
    exact ⟨trivial, whole.trans more, short⟩

end Tools

end Murmur3

/-- The bytes of a name. -/
def utf8 (name : Hashes.Str) : List UInt8 := name.flatMap String.utf8EncodeChar

/-- The hash of a symbol's name is the one that the tools compute for a key. -/
theorem Compute_eq_murmur32 {name : Hashes.Str} (small : (utf8 name).length < 2 ^ 32) :
    (Murmur3.Compute (utf8 name)).toNat = murmur32 name := by
  have bytes : name.flatMap (fun c => (String.utf8EncodeChar c).map UInt8.toNat) = (utf8 name).map UInt8.toNat := by
    rw [utf8, List.map_flatMap]
  have empty : (Murmur3.Initialize 0#32).m_Length.toNat + (utf8 name).length = (utf8 name).length := Nat.zero_add _
  obtain ⟨body, whole, short⟩ := Murmur3.foldl_Update (utf8 name) (s := Murmur3.Initialize 0#32) (empty.symm ▸ small)
  have seed : (Murmur3.Initialize 0#32).m_H.toNat = 0 := rfl
  rw [seed] at body
  rw [empty] at whole
  rw [murmur32, bytes, body, Murmur3.Compute, Murmur3.toNat_Finalize short (whole.symm ▸ small), whole, List.length_map]

theorem Compute_sead : (Murmur3.Compute (utf8 ['s', 'e', 'a', 'd', ':'])).toNat = murmur32 ['s', 'e', 'a', 'd', ':'] :=
  Compute_eq_murmur32 (by decide)

end LotusKit.Syms

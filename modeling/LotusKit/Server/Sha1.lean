import LotusKit.Lib.Sha1

/-! The vendored SHA-1. Its word buffer is never cleared as a whole: the words behind the first
sixteen are those of the block before, until each one is overwritten in its own round. -/

namespace LotusKit.Server.Sha1
open LotusKit.Lib.Sha1

def rol (value : Word) (steps : Nat) : Word := (value <<< steps) ||| (value >>> (32 - steps))

/-- The local variables of `innerHash`, and the buffer it works in. -/
structure Rounds where
  s : Chain
  w : List Word

def word (w : List Word) (i : Nat) : Word := w.getD i 0

def sha1macro (func : Chain → Word) (val : Word) (r : Rounds) (round : Nat) : Rounds where
  s :=
    { a := rol r.s.a 5 + func r.s + r.s.e + val + word r.w round
      b := r.s.a
      c := rol r.s.b 30
      d := r.s.c
      e := r.s.d }
  w := r.w

/-- What all rounds but the first sixteen do first. -/
def extend (r : Rounds) (round : Nat) : Rounds where
  s := r.s
  w := r.w.set round
    (rol (word r.w (round - 3) ^^^ word r.w (round - 8) ^^^ word r.w (round - 14) ^^^ word r.w (round - 16)) 1)

def choose (s : Chain) : Word := (s.b &&& s.c) ||| (~~~s.b &&& s.d)

def odd (s : Chain) : Word := s.b ^^^ s.c ^^^ s.d

def majority (s : Chain) : Word := (s.b &&& s.c) ||| (s.b &&& s.d) ||| (s.c &&& s.d)

/-- `result` and the buffer after it. -/
def innerHash (result : Chain) (w : List Word) : Chain × List Word :=
  let r : Rounds := ⟨result, w⟩
  let r := (List.range 16).foldl ( sha1macro choose 0x5a827999) r
  let r := (List.range' 16 4).foldl (fun r round => sha1macro choose 0x5a827999 (extend r round) round) r
  let r := (List.range' 20 20).foldl (fun r round => sha1macro odd 0x6ed9eba1 (extend r round) round) r
  let r := (List.range' 40 20).foldl (fun r round => sha1macro majority 0x8f1bbcdc (extend r round) round) r
  let r := (List.range' 60 20).foldl (fun r round => sha1macro odd 0xca62c1d6 (extend r round) round) r
  (result.add r.s, r.w)

def clearWBuffert (w : List Word) : List Word := (List.range 16).foldl (fun w pos => w.set pos 0) w

section Calc
variable (sarray : Nat → UInt8)

def byteWord (i : Nat) : Word := (sarray i).toBitVec.setWidth 32

/-- The words of a full block, from its first byte on. -/
def loadBlock (currentBlock : Nat) (w : List Word) : List Word :=
  (List.range 16).foldl (fun w roundPos =>
    let at_ := currentBlock + 4 * roundPos
    w.set roundPos (byteWord sarray (at_ + 3) ||| (byteWord sarray (at_ + 2) <<< 8) |||
      (byteWord sarray (at_ + 1) <<< 16) ||| (byteWord sarray at_ <<< 24))) w

structure Blocks where
  currentBlock : Nat
  result : Chain
  w : List Word

/-- `while (currentBlock <= endOfFullBlocks)` -/
def fullBlocks (endOfFullBlocks : Nat) (s : Blocks) : Blocks :=
  if s.currentBlock ≤ endOfFullBlocks then
    let (result, w) := innerHash s.result (loadBlock sarray s.currentBlock s.w)
    fullBlocks endOfFullBlocks ⟨s.currentBlock + 64, result, w⟩
  else s
termination_by endOfFullBlocks + 1 - s.currentBlock

/-- `w[i >> 2] |= byte << ((3 - (i & 3)) << 3)` -/
def orByte (w : List Word) (i : Nat) (byte : Word) : List Word :=
  w.set (i >>> 2) (word w (i >>> 2) ||| byte <<< ((3 - (i &&& 3)) <<< 3))

/-- What follows the full blocks: `result` in the end. -/
def lastBlocks (bytelength : Nat) (s : Blocks) : Chain :=
  let endCurrentBlock := bytelength - s.currentBlock
  let w := clearWBuffert s.w
  let w := (List.range endCurrentBlock).foldl
    (fun w lastBlockBytes => orByte w lastBlockBytes (byteWord sarray (lastBlockBytes + s.currentBlock))) w
  let w := orByte w endCurrentBlock 0x80
  let (result, w) :=
    if 56 ≤ endCurrentBlock then
      let (result, w) := innerHash s.result w
      (result, clearWBuffert w)
    else (s.result, w)
  (innerHash result (w.set 15 (BitVec.ofNat 32 (bytelength <<< 3)))).1

/-- Byte `hashByte` of the hash. The difference of the two ints is negative for most of them. -/
def hashByte (result : Chain) (hashByte : Nat) : UInt8 :=
  UInt8.ofNat ((result.words.getD (hashByte >>> 2) 0) >>>
    (((3 - (hashByte : Int)) % 4).toNat <<< 3) &&& 0xff).toNat

end Calc

/-- `sha1::calc`: what it leaves in `hash`. Nothing initializes `w`. -/
def calc_ (src : List UInt8) (w : List Word) : List UInt8 :=
  let sarray (i : Nat) := src.getD i 0
  let s : Blocks := ⟨0, .initial, w⟩
  let s := if 64 ≤ src.length then fullBlocks sarray (src.length - 64) s else s
  (List.range 20).map (hashByte (lastBlocks sarray src.length s))

section Rounds
variable {block : Nat → Word} {r : Rounds} {s : Chain} {n : Nat}

theorem rol_eq (value : Word) {steps : Nat} (small : steps < 32) : rol value steps = value.rotateLeft steps := by
  rw [rol, BitVec.rotateLeft_def, Nat.mod_eq_of_lt small]

theorem choose_eq (s : Chain) : choose s = ch s.b s.c s.d := by
  ext i inside
  simp only [choose, ch, BitVec.getElem_or, BitVec.getElem_and, BitVec.getElem_not, BitVec.getElem_xor]
  cases s.b[i] <;> simp

theorem majority_eq (s : Chain) : majority s = maj s.b s.c s.d := by
  ext i inside
  simp only [majority, maj, BitVec.getElem_or, BitVec.getElem_and, BitVec.getElem_xor]
  cases s.b[i] <;> cases s.c[i] <;> simp

theorem word_set (w : List Word) (i j : Nat) (v : Word) :
    word (w.set i v) j = if i = j ∧ i < w.length then v else word w j := by
  simp only [word, List.getD_eq_getElem?_getD, List.getElem?_set]
  grind

/-- Before round `n`, the variables are those of the schedule's rounds, and the words up to there are in
the buffer. -/
structure Follows (block : Nat → Word) (n : Nat) (r : Rounds) (s : Chain) : Prop where
  chain : r.s = s
  size : r.w.length = 80
  filled : ∀ i < max 16 n, word r.w i = schedule block i

theorem Follows.extend (follows : Follows block n r s) (behind : 16 ≤ n) (within : n < 80) :
    Follows block (n + 1) (extend r n) s := by
  obtain ⟨chain, size, filled⟩ := follows
  refine ⟨chain, ?_, ?_⟩
  · rw [Sha1.extend, List.length_set, size]
  · intro i before
    rw [Sha1.extend, word_set, size]
    by_cases new : n = i
    · subst new
      rw [if_pos ⟨rfl, within⟩, schedule, if_neg (by omega), rol_eq _ (by decide), filled _ (by omega),
        filled _ (by omega), filled _ (by omega), filled _ (by omega)]
    · rw [if_neg (fun same => new same.1)]
      exact filled i (by omega)

/-- One round, once its word is there. -/
theorem Follows.mixed (follows : Follows block (n + 1) r s) {func : Chain → Word} {val : Word}
    (mixes : func s = mix n s.b s.c s.d) (adds : val = constant n) :
    Follows block (n + 1) ( sha1macro func val r n) (Lib.Sha1.round (schedule block) s n) := by
  obtain ⟨rfl, size, filled⟩ := follows
  refine ⟨?_, size, filled⟩
  simp only [ Sha1.sha1macro, Lib.Sha1.round, rol_eq _ (by decide : 5 < 32), rol_eq _ (by decide : 30 < 32), mixes, adds,
    filled n (by omega)]

theorem Follows.early (follows : Follows block n r s) (early : n < 16) : Follows block (n + 1) r s :=
  ⟨follows.chain, follows.size, fun i before => follows.filled i (by omega)⟩

/-- One of the loops over the rounds. -/
theorem Follows.rounds (body : Rounds → Nat → Rounds) (from_ count : Nat)
    (turn : ∀ n r s, from_ ≤ n → n < from_ + count → Follows block n r s →
      Follows block (n + 1) (body r n) (Lib.Sha1.round (schedule block) s n)) (follows : Follows block from_ r s) :
    Follows block (from_ + count) ((List.range' from_ count).foldl body r)
      ((List.range' from_ count).foldl (Lib.Sha1.round (schedule block)) s) := by
  induction count with
  | zero => exact follows
  | succ count ih =>
    have before := ih fun n r s low high => turn n r s low (by omega)
    rw [List.range'_concat, Nat.one_mul, List.foldl_append, List.foldl_append]
    exact turn _ _ _ (Nat.le_add_right _ _) (Nat.add_lt_add_left (Nat.lt_succ_self _) _) before

/-- The loops behind the first one. -/
theorem Follows.extending (from_ count : Nat) (func : Chain → Word) (val : Word) (behind : 16 ≤ from_)
    (within : from_ + count ≤ 80) (mixes : ∀ n, from_ ≤ n → n < from_ + count → ∀ s, func s = mix n s.b s.c s.d)
    (adds : ∀ n, from_ ≤ n → n < from_ + count → val = constant n) (follows : Follows block from_ r s) :
    Follows block (from_ + count)
      ((List.range' from_ count).foldl (fun r round => Sha1.sha1macro func val (Sha1.extend r round) round) r)
      ((List.range' from_ count).foldl (Lib.Sha1.round (schedule block)) s) := by
  apply Follows.rounds _ _ _ _ follows
  intro n r s low high follows
  have extended := follows.extend (behind.trans low) (by omega)
  exact extended.mixed (mixes n low high s) (adds n low high)

theorem innerHash_spec {w : List Word} (size : w.length = 80) (first : ∀ i < 16, word w i = block i)
    (result : Chain) :
    (innerHash result w).1 = compress result block ∧ (innerHash result w).2.length = 80 := by
  have start : Follows block 0 ⟨result, w⟩ result := by
    refine ⟨rfl, size, fun i before => ?_⟩
    have low : i < 16 := by omega
    rw [first i low, schedule, if_pos low]
  have loaded := start.rounds ( sha1macro choose 0x5a827999) 0 16 fun n r s _ before follows => by
    apply (follows.early (by omega)).mixed
    · rw [mix, if_pos (by omega), choose_eq]
    · rw [constant, if_pos (by omega)]
  have twenty := loaded.extending 16 4 choose 0x5a827999 (by decide) (by decide)
    (fun n _ before s => by rw [mix, if_pos (by omega), choose_eq])
    (fun n _ before => by rw [constant, if_pos (by omega)])
  have forty := twenty.extending 20 20 odd 0x6ed9eba1 (by decide) (by decide)
    (fun n behind before s => by rw [mix, if_neg (by omega), if_pos (by omega), odd, parity])
    (fun n behind before => by rw [constant, if_neg (by omega), if_pos (by omega)])
  have sixty := forty.extending 40 20 majority 0x8f1bbcdc (by decide) (by decide)
    (fun n behind before s => by
      rw [mix, if_neg (by omega), if_neg (by omega), if_pos (by omega), majority_eq])
    (fun n behind before => by rw [constant, if_neg (by omega), if_neg (by omega), if_pos (by omega)])
  have eighty := sixty.extending 60 20 odd 0xca62c1d6 (by decide) (by decide)
    (fun n behind before s => by
      rw [mix, if_neg (by omega), if_neg (by omega), if_neg (by omega), odd, parity])
    (fun n behind before => by rw [constant, if_neg (by omega), if_neg (by omega), if_neg (by omega)])
  have all : List.range 80 =
      List.range' 0 16 ++ List.range' 16 4 ++ List.range' 20 20 ++ List.range' 40 20 ++ List.range' 60 20 := by
    decide
  unfold innerHash
  rw [List.range_eq_range']
  dsimp only
  refine ⟨?_, eighty.size⟩
  rw [eighty.chain, compress, all]
  simp only [List.foldl_append]

end Rounds

section Blocks
variable {sarray bytes : Nat → UInt8} {w : List Word} {n : Nat}

theorem loadBlock_spec (sarray : Nat → UInt8) (size : w.length = 80) (currentBlock : Nat) :
    (loadBlock sarray currentBlock w).length = 80 ∧ ∀ i < 16,
      word (loadBlock sarray currentBlock w) i = bigWord fun k => sarray (currentBlock + 4 * i + k) := by
  have filled (count : Nat) (within : count ≤ 80) :
      let w' := (List.range count).foldl (fun w roundPos =>
        let at_ := currentBlock + 4 * roundPos
        w.set roundPos (byteWord sarray (at_ + 3) ||| (byteWord sarray (at_ + 2) <<< 8) |||
          (byteWord sarray (at_ + 1) <<< 16) ||| (byteWord sarray at_ <<< 24))) w
      w'.length = 80 ∧ ∀ i < count, word w' i = bigWord fun k => sarray (currentBlock + 4 * i + k) := by
    induction count with
    | zero => exact ⟨size, fun i before => absurd before (Nat.not_lt_zero i)⟩
    | succ count ih =>
      obtain ⟨length, words⟩ := ih (by omega)
      rw [List.range_succ, List.foldl_append, List.foldl_cons, List.foldl_nil]
      refine ⟨by rw [List.length_set, length], fun i before => ?_⟩
      rw [word_set, length]
      by_cases new : count = i
      · subst new
        rw [if_pos ⟨rfl, by omega⟩, bigWord_eq]
        rfl
      · rw [if_neg (fun same => new same.1)]
        exact words i (by omega)
  exact filled 16 (by decide)

/-- The buffer holds the first `n` bytes of a block, and zeros behind them. -/
structure Filled (bytes : Nat → UInt8) (n : Nat) (w : List Word) : Prop where
  size : w.length = 80
  words : ∀ i < 16, word w i = bigWord fun k => if 4 * i + k < n then bytes (4 * i + k) else 0

theorem filled_clearWBuffert (size : w.length = 80) : Filled bytes 0 (clearWBuffert w) := by
  have cleared (count : Nat) (within : count ≤ 80) :
      let w' := (List.range count).foldl (fun w pos => w.set pos 0) w
      w'.length = 80 ∧ ∀ i < count, word w' i = 0 := by
    induction count with
    | zero => exact ⟨size, fun i before => absurd before (Nat.not_lt_zero i)⟩
    | succ count ih =>
      obtain ⟨length, words⟩ := ih (by omega)
      rw [List.range_succ, List.foldl_append, List.foldl_cons, List.foldl_nil]
      refine ⟨by rw [List.length_set, length], fun i before => ?_⟩
      rw [word_set, length]
      by_cases new : count = i
      · rw [if_pos ⟨new, by omega⟩]
      · rw [if_neg (fun same => new same.1)]
        exact words i (by omega)
  obtain ⟨length, words⟩ := cleared 16 (by decide)
  refine ⟨length, fun i before => (words i before).trans ?_⟩
  simp only [Nat.not_lt_zero, if_false]
  decide

theorem Filled.orByte (filled : Filled bytes n w) {byte : Word}
    (is : byte = (bytes n).toBitVec.setWidth 32) : Filled bytes (n + 1) (orByte w n byte) := by
  obtain ⟨size, words⟩ := filled
  have index : n >>> 2 = n / 4 := Nat.shiftRight_eq_div_pow n 2
  have shift : (3 - (n &&& 3)) <<< 3 = 8 * (3 - n % 4) := by
    rw [Nat.and_two_pow_sub_one_eq_mod n 2, Nat.shiftLeft_eq, Nat.mul_comm]
  refine ⟨by rw [Sha1.orByte, List.length_set, size], fun i before => ?_⟩
  rw [Sha1.orByte, word_set, index, shift, size]
  by_cases here : n / 4 = i
  · rw [if_pos ⟨here, by omega⟩, here, words i before, is, bigWord_or (by omega) (if_neg (by omega))]
    apply bigWord_congr
    intro k small
    by_cases last : k = n % 4
    · have same : 4 * i + k = n := by omega
      rw [if_pos last, if_pos (by omega), same]
    · have before_ : 4 * i + k < n ↔ 4 * i + k < n + 1 := by omega
      rw [if_neg last]
      simp only [before_]
  · rw [if_neg (fun same => here same.1), words i before]
    apply bigWord_congr
    intro k small
    have before_ : 4 * i + k < n ↔ 4 * i + k < n + 1 := by omega
    simp only [before_]

/-- The bytes behind the full blocks. -/
theorem Filled.orBytes (sarray : Nat → UInt8) (from_ : Nat) (filled : Filled bytes 0 w) (within : n ≤ 64)
    (same : ∀ i < n, bytes i = sarray (i + from_)) :
    Filled bytes n ((List.range n).foldl
      (fun w lastBlockBytes => Sha1.orByte w lastBlockBytes (byteWord sarray (lastBlockBytes + from_))) w) := by
  induction n with
  | zero => exact filled
  | succ n ih =>
    have before := ih (by omega) fun i inside => same i (by omega)
    rw [List.range_succ, List.foldl_append, List.foldl_cons, List.foldl_nil]
    apply before.orByte
    rw [byteWord, same n (Nat.lt_succ_self n)]

theorem fullBlocks_spec {src : List UInt8} (full : 64 ≤ src.length) (s : Blocks) {n : Nat}
    (place : s.currentBlock = 64 * n) (within : n ≤ src.length / 64) (size : s.w.length = 80)
    (hashed : s.result = chain ((pad src).getD · 0) n) :
    (fullBlocks (src.getD · 0) (src.length - 64) s).currentBlock = 64 * (src.length / 64) ∧
      (fullBlocks (src.getD · 0) (src.length - 64) s).w.length = 80 ∧
      (fullBlocks (src.getD · 0) (src.length - 64) s).result = chain ((pad src).getD · 0) (src.length / 64) := by
  induction left : src.length / 64 - n generalizing s n with
  | zero =>
    have last : n = src.length / 64 := by omega
    rw [fullBlocks, if_neg (by omega)]
    exact ⟨place.trans (by rw [last]), size, hashed.trans (by rw [last])⟩
  | succ left ih =>
    rw [fullBlocks, if_pos (by omega)]
    obtain ⟨length, words⟩ := loadBlock_spec (src.getD · 0) size s.currentBlock
    have same : ∀ i < 16, word (loadBlock (src.getD · 0) s.currentBlock s.w) i =
        blockAt ((pad src).getD · 0) n i := by
      intro i before
      rw [words i before, place, blockAt]
      apply bigWord_congr
      intro k small
      exact (pad_message (by omega)).symm
    obtain ⟨compressed, length'⟩ := innerHash_spec length same s.result
    apply ih ⟨_, _, _⟩ (n := n + 1) (by simp only [place]; omega) (by omega) length' _ (by omega)
    exact compressed.trans (by rw [hashed, chain_succ])

/-- The block that ends with the message's length. -/
theorem lengthBlock_spec {src : List UInt8} (short : src.length < 2 ^ 29) {b : Nat}
    (filled : Filled (fun i => (pad src).getD (64 * b + i) 0) n w) (few : n ≤ 56)
    (zero : ∀ i, n ≤ i → i < 56 → (pad src).getD (64 * b + i) 0 = 0)
    (place : 64 * b + 56 = src.length + 1 + zeros src.length) :
    ∀ i < 16, word (w.set 15 (BitVec.ofNat 32 (src.length <<< 3))) i = blockAt ((pad src).getD · 0) b i := by
  obtain ⟨size, words⟩ := filled
  intro i before
  rw [word_set, size, blockAt]
  by_cases last : 15 = i
  · subst last
    rw [if_pos ⟨rfl, by decide⟩, Nat.shiftLeft_eq, Nat.mul_comm, ← bigWord_length]
    apply bigWord_congr
    intro k _
    rw [← place]
    congr 1
    omega
  · rw [if_neg (fun same => last same.1), words i before]
    by_cases high : i = 14
    · rw [high]
      have none_ : (bigWord fun k => (pad src).getD (64 * b + 4 * 14 + k) 0) = 0 := by
        have length := bigWord_length_high short
        rwa [← place] at length
      rw [none_]
      have outside (k : Nat) : ¬4 * 14 + k < n := by omega
      simp only [outside, if_false]
      decide
    · apply bigWord_congr
      intro k small
      rw [Nat.add_assoc]
      split
      · rfl
      · exact (zero _ (by omega) (by omega)).symm

/-- The blocks behind the full ones, for a message whose length in bits is less than 2^32. -/
theorem lastBlocks_spec {src : List UInt8} (short : src.length < 2 ^ 29) {s : Blocks}
    (place : s.currentBlock = 64 * (src.length / 64)) (size : s.w.length = 80)
    (hashed : s.result = chain ((pad src).getD · 0) (src.length / 64)) :
    lastBlocks (src.getD · 0) src.length s = chain ((pad src).getD · 0) ((pad src).length / 64) := by
  set q := src.length / 64 with hq
  set rem := src.length - s.currentBlock with hrem
  have rest : rem = src.length % 64 := by omega
  let bytes (i : Nat) : UInt8 := (pad src).getD (64 * q + i) 0
  have message : ∀ i < rem, bytes i = src.getD (i + s.currentBlock) 0 := by
    intro i inside
    have index : 64 * q + i = i + s.currentBlock := by omega
    simp only [bytes, index]
    exact pad_message (by omega)
  have marker : bytes rem = 0x80 := by
    have index : 64 * q + rem = src.length := by omega
    simp only [bytes, index]
    exact pad_marker src
  have zero (i : Nat) (behind : rem < i) (before : i < rem + 1 + zeros src.length) : bytes i = 0 := by
    have index : 64 * q + i = src.length + 1 + (i - rem - 1) := by omega
    simp only [bytes, index]
    exact pad_zero (by omega)
  have count : zeros src.length = (119 - rem) % 64 := by rw [zeros, rest]
  have marked : Filled bytes (rem + 1) _ :=
    ((filled_clearWBuffert size).orBytes (src.getD · 0) s.currentBlock (by omega) message).orByte
      (show (0x80 : Word) = (bytes rem).toBitVec.setWidth 32 by rw [marker]; decide)
  rw [length_pad, Nat.mul_div_cancel_left _ (by decide), ← rest, lastBlocks, ← hrem]
  dsimp only
  generalize Sha1.orByte _ rem 0x80 = w at marked ⊢
  by_cases oneMore : rem < 56
  · rw [if_pos oneMore, if_neg (by omega)]
    have block := lengthBlock_spec short marked (by omega)
      (fun i behind before => zero i (by omega) (by omega)) (by omega)
    rw [(innerHash_spec (by rw [List.length_set, marked.size]) block s.result).1, hashed, chain_succ]
  · rw [if_neg oneMore, if_pos (by omega)]
    have block : ∀ i < 16, word w i = blockAt ((pad src).getD · 0) q i := by
      intro i before
      rw [marked.words i before]
      apply bigWord_congr
      intro k small
      rw [Nat.add_assoc]
      split
      · rfl
      · exact (zero _ (by omega) (by omega)).symm
    obtain ⟨compressed, length⟩ := innerHash_spec marked.size block s.result
    have cleared : Filled (fun i => (pad src).getD (64 * (q + 1) + i) 0) 0 _ := filled_clearWBuffert length
    have block' := lengthBlock_spec short cleared (by decide) (fun i _ before => ?_) (by omega)
    · rw [(innerHash_spec (by rw [List.length_set, cleared.size]) block' _).1, compressed, hashed, chain_succ,
        chain_succ]
    · have index : 64 * (q + 1) + i = 64 * q + (64 + i) := by omega
      rw [index]
      exact zero (64 + i) (by omega) (by omega)

end Blocks

theorem hashByte_eq (result : Chain) (i : Nat) : hashByte result i =
    UInt8.ofNat ((result.words.getD (i / 4) 0).toNat / 256 ^ (3 - i % 4)) := by
  have index : i >>> 2 = i / 4 := Nat.shiftRight_eq_div_pow i 2
  have shift : ((3 - (i : Int)) % 4).toNat <<< 3 = 8 * (3 - i % 4) := by
    have position : ((3 - (i : Int)) % 4).toNat = 3 - i % 4 := by omega
    rw [position, Nat.shiftLeft_eq, Nat.mul_comm]
  rw [hashByte, index, shift]
  apply UInt8.toNat_inj.mp
  rw [UInt8.toNat_ofNat', UInt8.toNat_ofNat', BitVec.toNat_and, BitVec.toNat_ushiftRight, Nat.shiftRight_eq_div_pow,
    Nat.pow_mul]
  exact congrArg (· % 256) (Nat.and_two_pow_sub_one_eq_mod _ 8) |>.trans (Nat.mod_mod _ _)

/-- The vendored code computes SHA-1 of every message whose length in bits fits a word, whatever
the buffer held before. -/
theorem calc_eq_sha1 {src : List UInt8} (short : src.length < 2 ^ 29) {w : List Word} (size : w.length = 80) :
    calc_ src w = sha1 src := by
  have result : lastBlocks (src.getD · 0) src.length
      (if 64 ≤ src.length then fullBlocks (src.getD · 0) (src.length - 64) ⟨0, .initial, w⟩ else ⟨0, .initial, w⟩) =
        chain ((pad src).getD · 0) ((pad src).length / 64) := by
    by_cases full : 64 ≤ src.length
    · rw [if_pos full]
      obtain ⟨place, size', hashed⟩ := fullBlocks_spec full ⟨0, .initial, w⟩ (n := 0) rfl (Nat.zero_le _) size rfl
      exact lastBlocks_spec short place size' hashed
    · rw [if_neg full]
      have none_ : src.length / 64 = 0 := Nat.div_eq_of_lt (by omega)
      exact lastBlocks_spec short (by rw [none_]) size (by rw [none_]; rfl)
  rw [calc_, result, sha1]
  generalize chain _ _ = result
  have bytes (v : Word) : LotusKit.Lib.Bytes.toBigEndian 4 v.toNat =
      (List.range 4).map fun i => UInt8.ofNat (v.toNat / 256 ^ (3 - i)) := by
    simp [LotusKit.Lib.Bytes.toBigEndian, List.range_succ, Nat.div_div_eq_div_mul]
  simp only [bytes, Chain.words]
  simp [List.range_succ, hashByte_eq, Chain.words]

/-- Three letters, with anything in the buffer. -/
theorem calc_letters : calc_ [0x61, 0x62, 0x63] (List.replicate 80 7) = sha1 [0x61, 0x62, 0x63] :=
  calc_eq_sha1 (by decide) List.length_replicate

end LotusKit.Server.Sha1

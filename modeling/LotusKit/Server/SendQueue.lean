import LotusKit.Lib.Memory
import LotusKit.Lib.Repeat
import LotusKit.Server.ClientFrame

/-! The queue of outgoing texts: a frame is built in a ring of memory, and a flush sends
what it finds between the tail and the head. Addresses count from `sendQueueBuf`, and
memory goes on behind it. -/

namespace LotusKit.Server
open LotusKit.Lib.Memory LotusKit.Lib.Repeat

/-- A C string, without its terminator. -/
structure CText where
  chars : List UInt8
  nulFree : 0 ∉ chars

namespace SendFrame

def headerLenFromPayloadLen (pLen : Nat) : Nat :=
  if pLen ≤ 125 then 2 else if pLen < 65535 then 4 else 10

def serializeHeader (frameType : UInt8) (hLen pLen : Nat) : List UInt8 :=
  if hLen = 2 then [frameType, UInt8.ofNat pLen]
  else if hLen = 4 then [frameType, 0x7e, UInt8.ofNat (pLen / 0x100), UInt8.ofNat (pLen % 0x100)]
  else
    [frameType, 0x7f, 0, 0, 0, 0, UInt8.ofNat (pLen / 2 ^ 24), UInt8.ofNat (pLen % 2 ^ 24 / 2 ^ 16),
      UInt8.ofNat (pLen % 2 ^ 16 / 2 ^ 8), UInt8.ofNat (pLen % 2 ^ 8)]

def getSerializedFrameSize (frame : Nat → UInt8) : Nat :=
  let at_ (i : Nat) : Nat := (frame i).toNat
  if at_ 1 < 0x7e then 2 + at_ 1
  else if at_ 1 = 0x7e then 4 + at_ 2 * 0x100 + at_ 3
  else if at_ 1 = 0x7f then
    u32 (10 + at_ 6 * 0x1000000 + at_ 7 * 0x10000 + at_ 8 * 0x100 + at_ 9)
  else 0

/-- The reader finds the length that was written. -/
theorem getSerializedFrameSize_header {frame : Nat → UInt8} {pLen : Nat}
    (holds : Holds frame ⟨0, serializeHeader 0x81 (headerLenFromPayloadLen pLen) pLen⟩)
    (small : headerLenFromPayloadLen pLen + pLen < 2 ^ 32) :
    getSerializedFrameSize frame = headerLenFromPayloadLen pLen + pLen := by
  have byte (j : Nat) (b : UInt8)
      (there : (serializeHeader 0x81 (headerLenFromPayloadLen pLen) pLen)[j]? = some b) : frame j = b := by
    obtain ⟨inside, value⟩ := List.getElem?_eq_some_iff.mp there
    have read := holds.get inside
    rw [Nat.zero_add] at read
    exact read.trans value
  by_cases short : pLen ≤ 125
  · have hLen : headerLenFromPayloadLen pLen = 2 := if_pos short
    rw [hLen] at byte ⊢
    have one := byte 1 (UInt8.ofNat pLen) rfl
    simp only [getSerializedFrameSize, one, UInt8.toNat_ofNat']
    rw [if_pos (by omega)]
    omega
  · by_cases medium : pLen < 65535
    · have hLen : headerLenFromPayloadLen pLen = 4 := (if_neg short).trans (if_pos medium)
      rw [hLen] at byte ⊢
      have one := byte 1 0x7e rfl
      have two := byte 2 (UInt8.ofNat (pLen / 0x100)) rfl
      have three := byte 3 (UInt8.ofNat (pLen % 0x100)) rfl
      simp only [getSerializedFrameSize, one, two, three, UInt8.toNat_ofNat']
      rw [if_neg (by decide), if_pos (by decide)]
      omega
    · have hLen : headerLenFromPayloadLen pLen = 10 := (if_neg short).trans (if_neg medium)
      rw [hLen] at byte small ⊢
      have one := byte 1 0x7f rfl
      have six := byte 6 (UInt8.ofNat (pLen / 2 ^ 24)) rfl
      have seven := byte 7 (UInt8.ofNat (pLen % 2 ^ 24 / 2 ^ 16)) rfl
      have eight := byte 8 (UInt8.ofNat (pLen % 2 ^ 16 / 2 ^ 8)) rfl
      have nine := byte 9 (UInt8.ofNat (pLen % 2 ^ 8)) rfl
      simp only [getSerializedFrameSize, one, six, seven, eight, nine, UInt8.toNat_ofNat']
      rw [if_neg (by decide), if_neg (by decide), if_pos (by decide), u32]
      omega

def spaceStr : CText := ⟨[0x20], by decide⟩

/-- The argument is a pointer, `none` when it is null. -/
def enforceAndWarnTextLimits (payloadSus : Option CText) : CText :=
  match payloadSus with
  | none => spaceStr
  | some payload => if payload.chars = [] then spaceStr else payload

end SendFrame

open SendFrame

def SEND_QUEUE_SIZE : Nat := 0x100000

/-- The last byte of the buffer. -/
def sendQueueBufEnd : Nat := SEND_QUEUE_SIZE - 1

/-- `ALIGN_UP(n, 8)`; the buffer itself is aligned to a page. -/
def alignUp (n : Nat) : Nat := (n + 7) / 8 * 8

/-- Whether a frame is put at the head, or else at the start of the buffer. -/
def FitsAtHead (head fLen : Nat) : Prop := head + fLen ≤ sendQueueBufEnd - 0x10

instance (head fLen : Nat) : Decidable (FitsAtHead head fLen) := inferInstanceAs (Decidable (_ ≤ _))

/-- Where the next frame goes, and what is written before that. -/
def getNextFrameForEnqueue (head fLen : Nat) : Nat × List (Block UInt8) :=
  if FitsAtHead head fLen then (head, [])
  else
    let sendQueueBufRemainder := sendQueueBufEnd - head
    (0, if 0 < sendQueueBufRemainder then [⟨head, List.replicate sendQueueBufRemainder 0⟩] else [])

namespace CText
variable (payload : CText)

/-- `strlen`, as an `u32`. -/
def pLen : Nat := u32 payload.chars.length

def hLen : Nat := headerLenFromPayloadLen payload.pLen

def fLen : Nat := u32 (payload.hLen + payload.pLen)

def header : List UInt8 := serializeHeader 0x81 payload.hLen payload.pLen

/-- The text as far as `memcpy` copies it. -/
def copied : List UInt8 := payload.chars.take payload.pLen

/-- What is put into the buffer. -/
def frame : List UInt8 := payload.header ++ payload.copied

def dst (head : Nat) : Nat := (getNextFrameForEnqueue head payload.fLen).1

/-- All that `enqueueText` writes, in order. -/
def writes (head : Nat) : List (Block UInt8) :=
  (getNextFrameForEnqueue head payload.fLen).2 ++
    [⟨payload.dst head, payload.header⟩, ⟨payload.dst head + payload.hLen, payload.copied⟩]

def nextHead (head : Nat) : Nat :=
  let next := alignUp (payload.dst head + payload.fLen)
  if sendQueueBufEnd ≤ next then 0 else next

end CText

structure WebSocket where
  isWsEstablished : Bool
  memory : Nat → UInt8
  sendQueueHead : Nat
  sendQueueTail : Nat
  /-- What the calls of `nn::socket::Send` were given. -/
  sent : List (Block UInt8)

namespace WebSocket

def enqueueText (payloadSus : Option CText) (s : WebSocket) : WebSocket :=
  let payload := enforceAndWarnTextLimits payloadSus
  { s with
    memory := storeAll (payload.writes s.sendQueueHead) s.memory
    sendQueueHead := payload.nextHead s.sendQueueHead }

def sendTextNoblock (payloadSus : Option CText) (s : WebSocket) : WebSocket :=
  if s.isWsEstablished then s.enqueueText payloadSus else s

def dequeueFrame (fLen : Nat) (s : WebSocket) : WebSocket :=
  if s.memory s.sendQueueTail = 0x00 then { s with sendQueueTail := 0 }
  else
    let next := alignUp (s.sendQueueTail + fLen)
    { s with sendQueueTail := if sendQueueBufEnd ≤ next then 0 else next }

def send (fLen : Nat) (s : WebSocket) : WebSocket :=
  { s with sent := s.sent ++ [⟨s.sendQueueTail, load s.memory s.sendQueueTail fLen⟩] }

/-- One turn of the loop in `flushSendQueueBlocking`. -/
def flushBody (s : WebSocket) : WebSocket ⊕ WebSocket :=
  if s.sendQueueTail = s.sendQueueHead then .inr s
  else
    let fLen := getSerializedFrameSize fun i => s.memory (s.sendQueueTail + i)
    .inl ((if 3 < fLen then s.send fLen else s).dequeueFrame fLen)

/-- `flushSendQueueBlocking` returns with `t`. -/
def FlushSendQueueBlocking (s t : WebSocket) : Prop :=
  if s.isWsEstablished then Leaves flushBody s t else t = s

end WebSocket

section Aligned
variable {n m : Nat}

theorem le_alignUp (n : Nat) : n ≤ alignUp n := by
  unfold alignUp
  omega

theorem alignUp_lt (n : Nat) : alignUp n < n + 8 := by
  unfold alignUp
  omega

theorem alignUp_mod (n : Nat) : alignUp n % 8 = 0 := by
  unfold alignUp
  omega

theorem alignUp_add (aligned : n % 8 = 0) (m : Nat) : alignUp (n + m) = n + alignUp m := by
  unfold alignUp
  omega

/-- Rounding up does not pass an aligned address. -/
theorem alignUp_le (below : n ≤ m) (aligned : m % 8 = 0) : alignUp n ≤ m := by
  unfold alignUp
  omega

end Aligned

namespace CText
variable {payload : CText}

theorem length_header : payload.header.length = payload.hLen := by
  unfold header hLen headerLenFromPayloadLen serializeHeader
  split
  · rfl
  · split
    · rfl
    · rfl

theorem length_copied : payload.copied.length = payload.pLen :=
  List.length_take_of_le (Nat.mod_le _ _)

theorem length_frame : payload.frame.length = payload.hLen + payload.pLen := by
  rw [frame, List.length_append, length_header, length_copied]

theorem hLen_bounds : 2 ≤ payload.hLen ∧ payload.hLen ≤ 10 := by
  unfold hLen headerLenFromPayloadLen
  split
  · decide
  · split
    · decide
    · decide

theorem fLen_eq (small : payload.frame.length < 2 ^ 32) : payload.fLen = payload.frame.length := by
  rw [length_frame] at small ⊢
  exact Nat.mod_eq_of_lt small

theorem head_frame : payload.frame[0]? = some 0x81 := by
  unfold frame header serializeHeader
  split
  · rfl
  · split
    · rfl
    · rfl

/-- The reader finds the length that was written. -/
theorem getSerializedFrameSize_frame {mem : Nat → UInt8} {a : Nat}
    (holds : Holds mem ⟨a, payload.frame⟩) (small : payload.frame.length < 2 ^ 32) :
    getSerializedFrameSize (fun i => mem (a + i)) = payload.frame.length := by
  rw [length_frame] at small ⊢
  exact getSerializedFrameSize_header holds.front.from_ small

section Writes
variable {head : Nat} {mem : Nat → UInt8} {i : Nat}

theorem dst_of_fits (fits : FitsAtHead head payload.fLen) : payload.dst head = head := by
  rw [dst, getNextFrameForEnqueue, if_pos fits]

theorem dst_of_not_fits (full : ¬FitsAtHead head payload.fLen) : payload.dst head = 0 := by
  rw [dst, getNextFrameForEnqueue, if_neg full]

/-- The frame itself, and the rest of the buffer when it goes to the start. -/
theorem covered_iff : (∃ b ∈ payload.writes head, b.Covers i) ↔
    (payload.dst head ≤ i ∧ i < payload.dst head + payload.frame.length) ∨
      (¬FitsAtHead head payload.fLen ∧ head ≤ i ∧ i < sendQueueBufEnd) := by
  have header := payload.length_header
  have copied := payload.length_copied
  have frame := payload.length_frame
  have zeroed : (∃ b ∈ (getNextFrameForEnqueue head payload.fLen).2, b.Covers i) ↔
      ¬FitsAtHead head payload.fLen ∧ head ≤ i ∧ i < sendQueueBufEnd := by
    unfold getNextFrameForEnqueue
    split
    next fits => simp only [List.not_mem_nil, false_and, exists_false, fits, not_true_eq_false]
    next full =>
      simp only [full, not_false_eq_true, true_and]
      split
      next some_ =>
        simp only [List.mem_singleton, exists_eq_left, Block.Covers, Block.end_, List.length_replicate]
        omega
      next none_ =>
        simp only [List.not_mem_nil, false_and, exists_false, false_iff]
        omega
  have built : (∃ b ∈ [Block.mk (payload.dst head) payload.header,
      ⟨payload.dst head + payload.hLen, payload.copied⟩], b.Covers i) ↔
      payload.dst head ≤ i ∧ i < payload.dst head + payload.frame.length := by
    simp only [List.mem_cons, List.not_mem_nil, or_false, exists_eq_or_imp, exists_eq_left,
      Block.Covers, Block.end_, header, copied, frame]
    omega
  rw [← zeroed, ← built, or_comm, ← exists_or]
  simp only [writes, List.mem_append, or_and_right]

theorem holds_frame (mem : Nat → UInt8) (head : Nat) :
    Holds (storeAll (payload.writes head) mem) ⟨payload.dst head, payload.frame⟩ := by
  rw [writes, storeAll_append, ← payload.length_header]
  exact holds_store_store payload.header payload.copied _

/-- What is left over at the end of the buffer is zeroed. -/
theorem storeAll_zeroed (full : ¬FitsAtHead head payload.fLen) (behind : payload.frame.length ≤ i)
    (above : head ≤ i) (below : i < sendQueueBufEnd) : storeAll (payload.writes head) mem i = 0 := by
  have header := payload.length_header
  have copied := payload.length_copied
  have frame := payload.length_frame
  rw [writes, storeAll_append, dst_of_not_fits full, storeAll_of_not_covers]
  · rw [getNextFrameForEnqueue, if_neg full]
    simp only
    rw [if_pos (by omega), storeAll, List.foldl_cons, List.foldl_nil]
    have inside : i - head < (List.replicate (sendQueueBufEnd - head) (0 : UInt8)).length := by
      rw [List.length_replicate]
      omega
    have stored := @Block.store_covered _ ⟨head, List.replicate (sendQueueBufEnd - head) 0⟩ _ inside mem
    simp only [List.getElem_replicate] at stored
    rwa [Nat.add_sub_cancel' above] at stored
  · intro b member covers
    simp only [List.mem_cons, List.not_mem_nil, or_false] at member
    rcases member with rfl | rfl
    · unfold Block.Covers Block.end_ at covers
      simp only at covers
      omega
    · unfold Block.Covers Block.end_ at covers
      simp only at covers
      omega

theorem nextHead_of_small (small : alignUp (payload.dst head + payload.fLen) < sendQueueBufEnd) :
    payload.nextHead head = alignUp (payload.dst head + payload.fLen) :=
  if_neg (Nat.not_le_of_lt small)

end Writes

end CText

namespace WebSocket
variable {s t : WebSocket}

theorem dequeueFrame_memory (fLen : Nat) (s : WebSocket) :
    (s.dequeueFrame fLen).memory = s.memory ∧
      (s.dequeueFrame fLen).sendQueueHead = s.sendQueueHead := by
  unfold dequeueFrame
  split
  · exact ⟨rfl, rfl⟩
  · exact ⟨rfl, rfl⟩

theorem memory_of_leaves (leaves : Leaves flushBody s t) :
    t.memory = s.memory ∧ t.sendQueueHead = s.sendQueueHead := by
  induction leaves with
  | now left =>
    unfold flushBody at left
    split at left
    · obtain rfl := Sum.inr.inj left
      exact ⟨rfl, rfl⟩
    · cases left
  | later goesOn _ ih =>
    unfold flushBody at goesOn
    split at goesOn
    · cases goesOn
    · obtain rfl := Sum.inl.inj goesOn
      rw [ih.1, ih.2, (dequeueFrame_memory _ _).1, (dequeueFrame_memory _ _).2]
      split
      · exact ⟨rfl, rfl⟩
      · exact ⟨rfl, rfl⟩

/-- A flush reads the memory, and the head stays where it is. -/
theorem FlushSendQueueBlocking.memory (flushes : s.FlushSendQueueBlocking t) :
    t.memory = s.memory ∧ t.sendQueueHead = s.sendQueueHead := by
  unfold FlushSendQueueBlocking at flushes
  split at flushes
  · exact memory_of_leaves flushes
  · rw [flushes]
    exact ⟨rfl, rfl⟩

end WebSocket

namespace Queueing

/-- One character over and over. -/
def long (n : Nat) (c : UInt8) (some_ : c ≠ 0) : CText where
  chars := List.replicate n c
  nulFree := fun member => some_ (List.mem_replicate.mp member).2.symm

/-- A text with the longest header, which fits into the buffer. -/
def Large (n : Nat) : Prop := 65535 ≤ n ∧ n ≤ 0xfff00

section Long
variable {n : Nat} {c : UInt8} {some_ : c ≠ 0}

theorem Large.pLen (size : Large n) : (long n c some_).pLen = n := by
  obtain ⟨least, most⟩ := size
  rw [CText.pLen, long, List.length_replicate]
  exact Nat.mod_eq_of_lt (by omega)

theorem Large.hLen (size : Large n) : (long n c some_).hLen = 10 := by
  have pLen := @size.pLen _ c some_
  obtain ⟨least, most⟩ := size
  rw [CText.hLen, pLen, headerLenFromPayloadLen, if_neg (by omega), if_neg (by omega)]

theorem Large.fLen (size : Large n) : (long n c some_).fLen = 10 + n := by
  have pLen := @size.pLen _ c some_
  have hLen := @size.hLen _ c some_
  obtain ⟨least, most⟩ := size
  rw [CText.fLen, hLen, pLen]
  exact Nat.mod_eq_of_lt (by omega)

theorem Large.frame_at (size : Large n) {j : Nat} (least : 10 ≤ j) (most : j < 10 + n) :
    (long n c some_).frame[j]? = some c := by
  have header : (long n c some_).header.length = 10 := by rw [CText.length_header, size.hLen]
  rw [CText.frame, List.getElem?_append_right (by omega), header, CText.copied, size.pLen, long]
  rw [List.getElem?_take, if_pos (by omega), List.getElem?_replicate, if_pos (by omega)]

theorem Large.frame (size : Large n) : (long n c some_).frame[10]? = some c := by
  have least := size.1
  exact size.frame_at (Nat.le_refl 10) (by omega)

theorem Large.enforce (size : Large n) :
    enforceAndWarnTextLimits (some (long n c some_)) = long n c some_ := by
  have nonempty : (long n c some_).chars ≠ [] := by
    intro none_
    have length := congrArg List.length none_
    obtain ⟨least, most⟩ := size
    rw [long, List.length_replicate, List.length_nil] at length
    omega
  exact if_neg nonempty

theorem Large.sendTextNoblock (size : Large n) {ws : WebSocket}
    (established : ws.isWsEstablished = true) : ws.sendTextNoblock (some (long n c some_)) =
      { ws with
        memory := storeAll ((long n c some_).writes ws.sendQueueHead) ws.memory
        sendQueueHead := (long n c some_).nextHead ws.sendQueueHead } := by
  rw [WebSocket.sendTextNoblock, if_pos established, WebSocket.enqueueText, size.enforce]

/-- Where the characters of the text are found. -/
theorem Large.memory_at (size : Large n) {ws : WebSocket}
    (established : ws.isWsEstablished = true) (dst : (long n c some_).dst ws.sendQueueHead = 0) {j : Nat}
    (least : 10 ≤ j) (most : j < 10 + n) :
    (ws.sendTextNoblock (some (long n c some_))).memory j = c := by
  obtain ⟨inside, value⟩ := List.getElem?_eq_some_iff.mp (@size.frame_at _ c some_ j least most)
  have placed := (long n c some_).holds_frame ws.memory ws.sendQueueHead
  rw [dst] at placed
  rw [size.sendTextNoblock established]
  exact (congrArg _ (Nat.zero_add j).symm).trans ((placed.get inside).trans value)

theorem Large.memory (size : Large n) {ws : WebSocket}
    (established : ws.isWsEstablished = true) (dst : (long n c some_).dst ws.sendQueueHead = 0) :
    (ws.sendTextNoblock (some (long n c some_))).memory 10 = c := by
  have least := size.1
  exact size.memory_at established dst (Nat.le_refl 10) (by omega)

theorem Large.dst_zero (size : Large n) : (long n c some_).dst 0 = 0 := by
  apply CText.dst_of_fits
  rw [size.fLen]
  obtain ⟨least, most⟩ := size
  unfold FitsAtHead sendQueueBufEnd SEND_QUEUE_SIZE
  omega

theorem Large.nextHead (size : Large n) :
    (long n c some_).nextHead 0 = alignUp (10 + n) := by
  have fLen := @size.fLen _ c some_
  have dst := @size.dst_zero _ c some_
  obtain ⟨least, most⟩ := size
  have above := alignUp_lt (10 + n)
  rw [CText.nextHead_of_small, dst, fLen, Nat.zero_add]
  rw [dst, fLen, Nat.zero_add]
  unfold sendQueueBufEnd SEND_QUEUE_SIZE
  omega

end Long

def textA (n : Nat) : CText := long n 0x61 (by decide)

def textB (n : Nat) : CText := long n 0x62 (by decide)

end Queueing

/-- What the program calls on the queue. -/
inductive Call where
  | sendTextNoblock (payloadSus : Option CText)
  | flushSendQueueBlocking

end LotusKit.Server

import LotusKit.Lib.Bytes

/-! A text message of the client, framed as RFC 6455 has it, and what one turn of the loop
of `recvNoblockAndProc` makes of the bytes in the socket. -/

namespace LotusKit.Server
open LotusKit.Lib.Bytes

section Client

/-- A masking key goes over the payload round and round. -/
def mask (maskKey payload : List UInt8) : List UInt8 :=
  payload.mapIdx fun i b => b ^^^ maskKey.getD (i % 4) 0

/-- One text message and the key the client masks it with. -/
structure ClientMessage where
  payload : List UInt8
  maskKey : List UInt8
  four : maskKey.length = 4
  nulFree : 0 ∉ payload
  small : payload.length < 2 ^ 32

namespace ClientMessage

/-- The payload length in its shortest form, with the mask bit. -/
def sizeField (n : Nat) : List UInt8 :=
  if n ≤ 125 then [UInt8.ofNat (0x80 + n)]
  else if n ≤ 65535 then 0xFE :: toBigEndian 2 n
  else 0xFF :: toBigEndian 8 n

def header (m : ClientMessage) : List UInt8 := 0x81 :: sizeField m.payload.length ++ m.maskKey

def masked (m : ClientMessage) : List UInt8 := mask m.maskKey m.payload

def frame (m : ClientMessage) : List UInt8 := m.header ++ m.masked

/-- How many payload bytes come with the first 14 bytes of the frame. -/
def excess (m : ClientMessage) : Nat :=
  if m.payload.length ≤ 125 then 8 else if m.payload.length ≤ 65535 then 6 else 0

end ClientMessage

end Client

section Server

def u32 (n : Nat) : Nat := n % 2 ^ 32

/-- What is read from the first 14 bytes. -/
structure FrameHeader where
  payloadLen : Nat
  maskKey : List UInt8
  /-- The payload bytes among the 14. -/
  excess : List UInt8

def frameHeader (header : List UInt8) : FrameHeader :=
  let sizeByte := (header.getD 1 0).toNat &&& 0x7f
  if sizeByte < 0x7e then ⟨sizeByte, slice header 2 4, slice header 6 8⟩
  else if sizeByte = 0x7e then ⟨bigEndian (slice header 2 2), slice header 4 4, slice header 8 6⟩
  else ⟨bigEndian (slice header 6 4), slice header 10 4, []⟩

/-- `u8 payload[payloadLen+1]`. -/
def FrameHeader.bufferLen (h : FrameHeader) : Nat := u32 (h.payloadLen + 1)

/-- The size of the blocking `Recv`, an unsigned subtraction. -/
def FrameHeader.request (h : FrameHeader) : Nat := u32 (h.payloadLen + 2 ^ 32 - h.excess.length)

/-- The C string that is dispatched; where nothing was received the buffer holds what was
on the stack. -/
def FrameHeader.text (h : FrameHeader) (received : List UInt8) (stack : Nat → UInt8) : List UInt8 :=
  let buffer (i : Nat) := (h.excess ++ received).getD i (stack i)
  ((List.range h.payloadLen).map fun i => buffer i ^^^ h.maskKey.getD (i % 4) 0).takeWhile (· ≠ 0)

inductive Received where
  | wouldBlock
  | returns (stream : List UInt8)
  | dispatches (text stream : List UInt8)
  /-- More is written than the buffer holds. -/
  | overflows
deriving DecidableEq

/-- One turn of the loop, when the two calls of `Recv` return `headerSize` bytes (none
stands for -1) and `payloadSize` bytes. -/
def recvFrame (stream : List UInt8) (headerSize payloadSize : Nat) (stack : Nat → UInt8) : Received :=
  if headerSize = 0 then .wouldBlock
  else if headerSize ≠ 14 then .returns (stream.drop headerSize)
  else if (stream.take 14).getD 0 0 ≠ 0x81 then .returns (stream.drop 14)
  else
    let h := frameHeader (stream.take 14)
    if h.bufferLen < h.excess.length + payloadSize ∨ h.bufferLen ≤ h.payloadLen then .overflows
    else .dispatches (h.text ((stream.drop 14).take payloadSize) stack)
      ((stream.drop 14).drop payloadSize)

end Server

namespace ClientMessage
variable (m : ClientMessage) (rest : List UInt8)

theorem length_mask (maskKey payload : List UInt8) : (mask maskKey payload).length = payload.length := by
  rw [mask, List.length_mapIdx]

theorem getElem?_mask (maskKey payload : List UInt8) (i : Nat) :
    (mask maskKey payload)[i]? = payload[i]?.map (· ^^^ maskKey.getD (i % 4) 0) := by
  rw [mask, List.getElem?_mapIdx]

theorem length_header : m.header.length + m.excess = 14 := by
  have four := m.four
  unfold header sizeField excess
  split
  · simp only [List.length_cons, List.length_append, List.length_nil, four]
  · split
    · simp only [List.length_cons, List.length_append, length_toBigEndian, four]
    · simp only [List.length_cons, List.length_append, length_toBigEndian, four]

theorem header_head : ∃ tail, m.header = 0x81 :: tail := ⟨_, rfl⟩

/-- The header is read back, with what follows it in the 14 bytes. -/
theorem frameHeader_header {behind : List UInt8} (length : behind.length = m.excess) :
    frameHeader (m.header ++ behind) = ⟨m.payload.length, m.maskKey, behind⟩ := by
  obtain ⟨k0, k1, k2, k3, key⟩ : ∃ k0 k1 k2 k3, m.maskKey = [k0, k1, k2, k3] := by
    have four := m.four
    match m.maskKey, four with
    | [k0, k1, k2, k3], _ => exact ⟨k0, k1, k2, k3, rfl⟩
  have small := m.small
  have all {n : Nat} (same : behind.length = n) : behind.take n = behind := by
    rw [← same, List.take_length]
  unfold header sizeField excess at *
  by_cases short : m.payload.length ≤ 125
  · rw [if_pos short] at length ⊢
    have size : (UInt8.ofNat (0x80 + m.payload.length)).toNat &&& 0x7f = m.payload.length := by
      have low := Nat.and_two_pow_sub_one_eq_mod (UInt8.ofNat (0x80 + m.payload.length)).toNat 7
      rw [show 2 ^ 7 - 1 = 0x7f from rfl] at low
      rw [low, UInt8.toNat_ofNat']
      omega
    simp only [frameHeader, key, List.cons_append, List.nil_append, List.getD_cons_succ,
      List.getD_cons_zero, size, if_pos (show m.payload.length < 0x7e by omega), slice,
      List.drop_succ_cons, List.drop_zero, List.take_succ_cons, List.take_zero, all length]
  · rw [if_neg short] at length ⊢
    by_cases medium : m.payload.length ≤ 65535
    · rw [if_pos medium] at length ⊢
      obtain ⟨a, b, bytes⟩ : ∃ a b, toBigEndian 2 m.payload.length = [a, b] := ⟨_, _, rfl⟩
      have value : bigEndian [a, b] = m.payload.length := by
        rw [← bytes]
        exact bigEndian_toBigEndian (by omega)
      have size : ((0xFE : UInt8).toNat &&& 0x7f) = 0x7e := by decide
      simp only [frameHeader, key, bytes, List.cons_append, List.nil_append, List.getD_cons_succ,
        List.getD_cons_zero, size, Nat.lt_irrefl, if_false, if_true, slice, List.drop_succ_cons,
        List.drop_zero, List.take_succ_cons, List.take_zero, value, all length]
    · rw [if_neg medium] at length ⊢
      obtain ⟨a, b, c, d, e, f, g, h, bytes⟩ : ∃ a b c d e f g h,
          toBigEndian 8 m.payload.length = [a, b, c, d, e, f, g, h] :=
        ⟨_, _, _, _, _, _, _, _, rfl⟩
      have value : bigEndian [e, f, g, h] = m.payload.length := by
        have low : toBigEndian 4 m.payload.length = [e, f, g, h] := by
          have tail := congrArg (List.drop 4) bytes
          exact tail
        rw [← low]
        exact bigEndian_toBigEndian (by omega)
      have size : ((0xFF : UInt8).toNat &&& 0x7f) = 0x7f := by decide
      have none_ : behind = [] := List.eq_nil_of_length_eq_zero length
      simp only [frameHeader, key, bytes, List.cons_append, List.nil_append, List.getD_cons_succ,
        List.getD_cons_zero, size, Nat.reduceLT, Nat.reduceEqDiff, if_false, slice,
        List.drop_succ_cons, List.drop_zero, List.take_succ_cons, List.take_zero, value, none_]

end ClientMessage

end LotusKit.Server

import LotusKit.Lib.Repeat
import LotusKit.Server.ClientFrame
import Mathlib.Data.List.GetD
import Mathlib.Data.List.TakeWhile

/-! Receiving a frame of the client when every `Recv` returns all it was asked for. -/

namespace LotusKit.Server
open LotusKit.Lib.Bytes LotusKit.Lib.Repeat

namespace ClientMessage
variable (m : ClientMessage) (rest : List UInt8)

theorem length_masked : m.masked.length = m.payload.length := length_mask m.maskKey m.payload

/-- The message fits the buffer that is made for it, and has no less than is taken for granted. -/
def Fits : Prop := 8 ≤ m.payload.length ∧ m.payload.length ≠ 2 ^ 32 - 1

instance : Decidable m.Fits := inferInstanceAs (Decidable (_ ∧ _))

theorem take_14 : (m.frame ++ rest).take 14 = m.header ++ (m.masked ++ rest).take m.excess := by
  have length := m.length_header
  rw [frame, List.append_assoc, List.take_append, List.take_of_length_le (by omega)]
  congr 2
  omega

theorem drop_14 : (m.frame ++ rest).drop 14 = (m.masked ++ rest).drop m.excess := by
  have length := m.length_header
  rw [frame, List.append_assoc, List.drop_append, List.drop_eq_nil_of_le (by omega), List.nil_append]
  congr 1
  omega

theorem head_frame : ((m.frame ++ rest).take 14).getD 0 0 = 0x81 := by
  rw [take_14]
  rfl

/-- What the server reads from the first 14 bytes, when there are as many. -/
theorem frameHeader_frame (long : 14 ≤ (m.frame ++ rest).length) :
    frameHeader ((m.frame ++ rest).take 14) =
      ⟨m.payload.length, m.maskKey, (m.masked ++ rest).take m.excess⟩ ∧
    ((m.masked ++ rest).take m.excess).length = m.excess := by
  have length := m.length_header
  have size : ((m.masked ++ rest).take m.excess).length = m.excess := by
    rw [frame, List.append_assoc, List.length_append] at long
    rw [List.length_take]
    omega
  rw [take_14, m.frameHeader_header size]
  exact ⟨rfl, size⟩

variable {m}

theorem Fits.excess_le (fits : m.Fits) : m.excess ≤ m.payload.length := by
  have long := fits.1
  unfold excess
  split
  · exact long
  · split <;> omega

theorem Fits.long (fits : m.Fits) : 14 ≤ (m.frame ++ rest).length := by
  have length := m.length_header
  have within := fits.excess_le
  rw [frame, List.append_assoc, List.length_append, List.length_append, length_masked]
  omega

/-- Unmasking undoes masking. -/
theorem unmask (m : ClientMessage) :
    ((List.range m.payload.length).map fun i =>
      m.masked.getD i 0 ^^^ m.maskKey.getD (i % 4) 0) = m.payload := by
  apply List.ext_getElem?
  intro i
  by_cases inside : i < m.payload.length
  · rw [List.getElem?_map, List.getElem?_range inside, Option.map_some, List.getD_eq_getElem?_getD,
      masked, getElem?_mask, List.getElem?_eq_getElem inside, Option.map_some, Option.getD_some,
      UInt8.xor_assoc, UInt8.xor_self, UInt8.xor_zero]
  · rw [List.getElem?_eq_none (by rw [List.length_map, List.length_range]; omega),
      List.getElem?_eq_none (by omega)]

theorem text_whole (m : ClientMessage) (n : Nat) (stack : Nat → UInt8) :
    (⟨m.payload.length, m.maskKey, m.masked.take n⟩ : FrameHeader).text (m.masked.drop n) stack =
      m.payload := by
  have same : ((List.range m.payload.length).map fun i =>
      m.masked.getD i (stack i) ^^^ m.maskKey.getD (i % 4) 0) = m.payload := by
    refine Eq.trans (List.map_congr_left fun i member => ?_) m.unmask
    have inside : i < m.masked.length := by
      rw [length_masked]
      exact List.mem_range.mp member
    rw [List.getD_eq_getElem _ _ inside, List.getD_eq_getElem _ _ inside]
  simp only [FrameHeader.text, List.take_append_drop, same]
  apply List.takeWhile_eq_self_iff.mpr
  intro b member
  simp only [ne_eq, decide_not, Bool.not_eq_true', decide_eq_false_iff_not]
  rintro rfl
  exact m.nulFree member

/-- A frame that fits is received as a whole, and nothing else is. -/
theorem Fits.recvFrame (fits : m.Fits) (rest : List UInt8) (stack : Nat → UInt8) :
    recvFrame (m.frame ++ rest) 14 (m.payload.length - m.excess) stack = .dispatches m.payload rest := by
  obtain ⟨header, size⟩ := m.frameHeader_frame rest (fits.long rest)
  have within := fits.excess_le
  have length := m.length_masked
  have small := m.small
  have notMax := fits.2
  have buffer : u32 (m.payload.length + 1) = m.payload.length + 1 := Nat.mod_eq_of_lt (by omega)
  have front : (m.masked ++ rest).take m.excess = m.masked.take m.excess :=
    List.take_append_of_le_length (by omega)
  have back : (m.masked ++ rest).drop m.excess = m.masked.drop m.excess ++ rest :=
    List.drop_append_of_le_length (by omega)
  have remainder : (m.masked.drop m.excess).length = m.payload.length - m.excess := by
    rw [List.length_drop, length]
  have room : ¬(u32 (m.payload.length + 1) < ((m.masked ++ rest).take m.excess).length +
      (m.payload.length - m.excess) ∨ u32 (m.payload.length + 1) ≤ m.payload.length) := by
    rw [buffer, size]
    omega
  simp only [Server.recvFrame, header, head_frame, FrameHeader.bufferLen, if_neg room, ne_eq,
    not_true_eq_false, if_false, Nat.reduceEqDiff]
  rw [drop_14, back, ← remainder, List.take_left, List.drop_left, front, text_whole]

/-- However much the second `Recv` returns, that is what is taken off the stream. -/
theorem Fits.recvFrame_short (fits : m.Fits) (rest : List UInt8) {n : Nat}
    (few : n ≤ m.payload.length - m.excess) (stack : Nat → UInt8) :
    ∃ text, Server.recvFrame (m.frame ++ rest) 14 n stack =
      .dispatches text (((m.frame ++ rest).drop 14).drop n) := by
  obtain ⟨header, size⟩ := m.frameHeader_frame rest (fits.long rest)
  have within := fits.excess_le
  have small := m.small
  have notMax := fits.2
  have room : ¬(u32 (m.payload.length + 1) < ((m.masked ++ rest).take m.excess).length + n ∨
      u32 (m.payload.length + 1) ≤ m.payload.length) := by
    rw [size, u32]
    omega
  simp only [Server.recvFrame, header, head_frame, FrameHeader.bufferLen, if_neg room, ne_eq,
    not_true_eq_false, if_false, Nat.reduceEqDiff]
  exact ⟨_, rfl⟩

/-- A frame that does not fit breaks the stack, as soon as its second `Recv` returns. -/
theorem recvFrame_overflows (misfits : ¬m.Fits) (long : 14 ≤ (m.frame ++ rest).length) {n : Nat}
    (some_ : 0 < n) (stack : Nat → UInt8) : recvFrame (m.frame ++ rest) 14 n stack = .overflows := by
  obtain ⟨header, size⟩ := m.frameHeader_frame rest long
  have bad : u32 (m.payload.length + 1) < ((m.masked ++ rest).take m.excess).length + n ∨
      u32 (m.payload.length + 1) ≤ m.payload.length := by
    rw [size]
    have small := m.small
    unfold Fits at misfits
    by_cases short : m.payload.length < 8
    · rw [excess, if_pos (by omega), u32]
      omega
    · have max : m.payload.length = 2 ^ 32 - 1 := by omega
      rw [max]
      exact .inr (by decide)
  simp only [Server.recvFrame, header, head_frame, FrameHeader.bufferLen, if_pos bad, ne_eq,
    not_true_eq_false, if_false, Nat.reduceEqDiff]

end ClientMessage

section Available

/-- How a call ends. -/
inductive Ended where
  | returned (stream : List UInt8)
  /-- It waits for bytes that are not there. -/
  | blocked
  | overflowed
deriving DecidableEq

/-- The blocking `Recv` of this turn asks for more than there is. -/
def waits (stream : List UInt8) : Prop :=
  let h := frameHeader (stream.take 14)
  14 ≤ stream.length ∧ (stream.take 14).getD 0 0 = 0x81 ∧ h.excess.length ≤ h.bufferLen ∧
    stream.length - 14 < h.request

instance (stream : List UInt8) : Decidable (waits stream) := inferInstanceAs (Decidable (_ ∧ _))

theorem recvFrame_shrinks {stream stream' text : List UInt8} {headerSize payloadSize : Nat}
    {stack : Nat → UInt8} (some_ : stream ≠ [])
    (dispatched : recvFrame stream headerSize payloadSize stack = .dispatches text stream') :
    stream'.length < stream.length := by
  have pos := List.length_pos_iff.mpr some_
  simp only [recvFrame] at dispatched
  repeat' split at dispatched
  all_goals cases dispatched
  rw [List.length_drop, List.length_drop]
  omega

/-- The loop of `recvNoblockAndProc` when all bytes are there, with what it has dispatched. -/
def recvLoop (stack : Nat → UInt8) :
    Loop (List UInt8 × List (List UInt8)) (List (List UInt8) × Ended) where
  body s :=
    let (stream, dispatched) := s
    if waits stream then .inr (dispatched, .blocked)
    else
      match recvFrame stream (min 14 stream.length) (frameHeader (stream.take 14)).request stack with
      | .wouldBlock => .inr (dispatched, .returned stream)
      | .returns stream => .inr (dispatched, .returned stream)
      | .overflows => .inr (dispatched, .overflowed)
      | .dispatches text stream => .inl (stream, dispatched ++ [text])
  size s := s.1.length
  shrinks s t goesOn := by
    obtain ⟨stream, dispatched⟩ := s
    simp only at goesOn
    split at goesOn
    · cases goesOn
    · split at goesOn
      · cases goesOn
      · cases goesOn
      · cases goesOn
      next text stream' received =>
        cases goesOn
        refine recvFrame_shrinks ?_ received
        rintro rfl
        simp [recvFrame] at received

/-- The texts dispatched in a call, and how it ends. -/
def recvNoblockAndProc (stack : Nat → UInt8) (stream : List UInt8) : List (List UInt8) × Ended :=
  (recvLoop stack).run (stream, [])

/-- What was dispatched before does not matter for the rest. -/
theorem recvLoop_run (stack : Nat → UInt8) (stream : List UInt8) (dispatched : List (List UInt8)) :
    (recvLoop stack).run (stream, dispatched) =
      (dispatched ++ (recvNoblockAndProc stack stream).1, (recvNoblockAndProc stack stream).2) := by
  induction size : stream.length using Nat.strongRecOn generalizing stream dispatched with
  | ind size_ ih =>
    -- the turn is the same, whatever was dispatched before
    have turn (dispatched : List (List UInt8)) :
        (∃ ended, (recvLoop stack).body (stream, dispatched) = .inr (dispatched, ended) ∧
          (recvLoop stack).body (stream, []) = .inr ([], ended)) ∨
        ∃ stream' text, (recvLoop stack).body (stream, dispatched) = .inl (stream', dispatched ++ [text]) ∧
          (recvLoop stack).body (stream, []) = .inl (stream', [text]) := by
      simp only [recvLoop]
      split
      · exact .inl ⟨_, rfl, rfl⟩
      · split
        · exact .inl ⟨_, rfl, rfl⟩
        · exact .inl ⟨_, rfl, rfl⟩
        · exact .inl ⟨_, rfl, rfl⟩
        · exact .inr ⟨_, _, rfl, rfl⟩
    rcases turn dispatched with ⟨ended, leaves, leaves'⟩ | ⟨stream', text, goesOn, goesOn'⟩
    · rw [recvNoblockAndProc, Loop.run_leaves leaves, Loop.run_leaves leaves', List.append_nil]
    · have smaller : stream'.length < size_ := size ▸ (recvLoop stack).shrinks _ _ goesOn
      have first := ih _ smaller stream' (dispatched ++ [text]) rfl
      have second := ih _ smaller stream' [text] rfl
      rw [recvNoblockAndProc, Loop.run_goesOn goesOn, Loop.run_goesOn goesOn', first, second,
        List.append_assoc]

namespace ClientMessage
variable (m : ClientMessage) (rest : List UInt8) (stack : Nat → UInt8)

/-- The payload is dispatched, and the call goes on right behind the frame. -/
def Decodes : Prop :=
  recvNoblockAndProc stack (m.frame ++ rest) =
    (m.payload :: (recvNoblockAndProc stack rest).1, (recvNoblockAndProc stack rest).2)

theorem request_frame (long : 14 ≤ (m.frame ++ rest).length) :
    (frameHeader ((m.frame ++ rest).take 14)).request =
      u32 (m.payload.length + 2 ^ 32 - m.excess) := by
  obtain ⟨header, size⟩ := m.frameHeader_frame rest long
  rw [header, FrameHeader.request, size]

variable {m}

theorem Fits.request (fits : m.Fits) :
    (frameHeader ((m.frame ++ rest).take 14)).request = m.payload.length - m.excess := by
  have within := fits.excess_le
  have small := m.small
  rw [m.request_frame rest (fits.long rest), u32]
  omega

/-- A frame that does not fit asks for something. -/
theorem request_pos (misfits : ¬m.Fits) (long : 14 ≤ (m.frame ++ rest).length) :
    0 < (frameHeader ((m.frame ++ rest).take 14)).request := by
  have small := m.small
  rw [m.request_frame rest long, u32]
  unfold Fits at misfits
  unfold excess
  split
  · omega
  · split <;> omega

theorem Fits.decodes (fits : m.Fits) : m.Decodes rest stack := by
  have long := fits.long rest
  have request := fits.request rest
  have there : ¬waits (m.frame ++ rest) := by
    rintro ⟨-, -, -, missing⟩
    have length := m.length_header
    rw [request, frame, List.append_assoc, List.length_append, List.length_append, length_masked]
      at missing
    omega
  have body : (recvLoop stack).body (m.frame ++ rest, []) = .inl (rest, [m.payload]) := by
    simp only [recvLoop, if_neg there, Nat.min_eq_left long, request, fits.recvFrame]
    rfl
  rw [Decodes, recvNoblockAndProc, Loop.run_goesOn body, recvLoop_run]
  rfl

/-- A frame that does not fit dispatches nothing. -/
theorem nothing_of_misfits (misfits : ¬m.Fits) :
    (recvNoblockAndProc stack (m.frame ++ rest)).1 = [] := by
  have leaves : ∃ ended, (recvLoop stack).body (m.frame ++ rest, []) = .inr ([], ended) := by
    simp only [recvLoop]
    split
    · exact ⟨_, rfl⟩
    next there =>
      by_cases long : 14 ≤ (m.frame ++ rest).length
      · rw [Nat.min_eq_left long,
          m.recvFrame_overflows rest misfits long (request_pos rest misfits long)]
        exact ⟨_, rfl⟩
      · have some_ : (m.frame ++ rest).length ≠ 0 := by
          obtain ⟨tail, head⟩ := m.header_head
          rw [frame, head, List.cons_append, List.cons_append, List.length_cons]
          omega
        rw [Nat.min_eq_right (by omega), recvFrame, if_neg some_, if_pos (by omega)]
        exact ⟨_, rfl⟩
  obtain ⟨ended, body⟩ := leaves
  rw [recvNoblockAndProc, Loop.run_leaves body]

/-- The server decodes what the client encodes exactly from 8 bytes on, and short of the
largest length. -/
theorem decodes_iff (m : ClientMessage) (rest : List UInt8) (stack : Nat → UInt8) :
    m.Decodes rest stack ↔ 8 ≤ m.payload.length ∧ m.payload.length ≠ 2 ^ 32 - 1 := by
  constructor
  · intro decodes
    by_contra misfits
    have nothing := nothing_of_misfits rest stack misfits
    rw [decodes] at nothing
    cases nothing
  · intro fits
    exact Fits.decodes rest stack fits

/-- The text `hi`. -/
def hi : ClientMessage where
  payload := [0x68, 0x69]
  maskKey := [1, 2, 3, 4]
  four := rfl
  nulFree := by decide
  small := by decide

theorem hi_not_decodes : ¬hi.Decodes (List.replicate 100 0x20) fun _ => 0 := by
  intro decodes
  have nothing := nothing_of_misfits (m := hi) (List.replicate 100 0x20) (fun _ => 0) (by decide)
  rw [decodes] at nothing
  cases nothing

end ClientMessage

theorem recvNoblockAndProc_nil (stack : Nat → UInt8) : recvNoblockAndProc stack [] = ([], .returned []) := by
  have leaves : (recvLoop stack).body ([], []) = .inr ([], .returned []) := by
    simp [recvLoop, waits, recvFrame]
  rw [recvNoblockAndProc, Loop.run_leaves leaves]

/-- A call dispatches all that is there, and returns, exactly when each message fits. -/
theorem recvNoblockAndProc_frames (stack : Nat → UInt8) (rest : List ClientMessage) :
    recvNoblockAndProc stack (rest.map ClientMessage.frame).flatten =
      (rest.map ClientMessage.payload, .returned []) ↔ ∀ m ∈ rest, m.Fits := by
  induction rest with
  | nil => exact iff_of_true (recvNoblockAndProc_nil stack) (by simp)
  | cons m rest ih =>
    rw [List.map_cons, List.flatten_cons, List.map_cons, List.forall_mem_cons]
    by_cases fits : m.Fits
    · have decodes := ClientMessage.Fits.decodes (rest.map ClientMessage.frame).flatten stack fits
      rw [ClientMessage.Decodes] at decodes
      rw [decodes, Prod.mk.injEq, List.cons.injEq, ← ih, Prod.ext_iff]
      simp [fits]
    · refine iff_of_false (fun all => ?_) fun both => fits both.1
      have nothing := ClientMessage.nothing_of_misfits (rest.map ClientMessage.frame).flatten stack fits
      rw [all] at nothing
      cases nothing

end Available

end LotusKit.Server

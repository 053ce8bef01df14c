import LotusKit.Server.Lossless
import LotusKit.Server.Room

/-! When a flush comes to an end. The step from one frame to the next is read from the buffer,
and is zero where something else than a header stands. -/

namespace LotusKit.Server
open LotusKit.Lib.Memory LotusKit.Lib.Repeat LotusKit.Lib.Transition SendFrame

/-- A turn over bytes that are no header does nothing. -/
theorem WebSocket.flushBody_stuck {s : WebSocket} (behind : s.sendQueueTail ≠ s.sendQueueHead)
    (even : s.sendQueueTail % 8 = 0) (inside : s.sendQueueTail < sendQueueBufEnd)
    (some_ : s.memory s.sendQueueTail ≠ 0) (large : 0x7f < (s.memory (s.sendQueueTail + 1)).toNat) :
    s.flushBody = .inl s := by
  have size : getSerializedFrameSize (fun i => s.memory (s.sendQueueTail + i)) = 0 := by
    simp only [getSerializedFrameSize]
    rw [if_neg (by omega), if_neg (by omega), if_neg (by omega)]
  have stays : alignUp (s.sendQueueTail + 0) = s.sendQueueTail := by
    unfold alignUp
    omega
  rw [flushBody, if_neg behind]
  simp only [size]
  rw [if_neg (by decide), dequeueFrame, if_neg some_]
  simp only [stays]
  rw [if_neg (by omega)]

namespace Sending
variable {s t : Sending} {call : Call}

/-- What was handed over since the last flush, with this text, takes up less than the queue. -/
def HasRoom (s : Sending) (call : Call) : Prop :=
  match call with
  | .sendTextNoblock payloadSus =>
    s.spent + (enforceAndWarnTextLimits payloadSus).cost s.ws.sendQueueHead < SEND_QUEUE_SIZE
  | .flushSendQueueBlocking => True

/-- What holds between the calls. -/
structure InQueue (s : Sending) : Prop where
  established : s.ws.isWsEstablished = true
  inside : s.ws.sendQueueHead < sendQueueBufEnd
  queue : ∃ payloads, s.ws.Queued payloads s.spent

/-- A flush comes to an end, and looks at nothing outside of the buffer. -/
def FlushEnds (ws : WebSocket) : Prop :=
  (∃ t, ws.FlushSendQueueBlocking t) ∧ ∀ i, ws.FlushReads i → i < SEND_QUEUE_SIZE

theorem InQueue.handOver (inQueue : s.InQueue) {payloadSus : Option CText}
    (room : s.HasRoom (.sendTextNoblock payloadSus)) : (s.handOver payloadSus).InQueue := by
  obtain ⟨established, inside, payloads, queue⟩ := inQueue
  have next : s.ws.sendTextNoblock payloadSus = s.ws.enqueueText payloadSus := if_pos established
  obtain ⟨queue', inside'⟩ := queue.enqueue inside room
  unfold Sending.handOver
  rw [next]
  exact ⟨established, inside', _, queue'⟩

/-- After a flush the queue is empty. -/
theorem InQueue.flush (inQueue : s.InQueue) {ws : WebSocket} (flushes : s.ws.FlushSendQueueBlocking ws) :
    (s.flushTo ws).InQueue := by
  obtain ⟨established, inside, payloads, queue⟩ := inQueue
  have even := queue.head_aligned
  obtain ⟨⟨blocks, -, leaves⟩, -⟩ := queue.leaves inside
  obtain rfl := flushes.unique established ((if_pos established).mpr leaves)
  refine ⟨established, inside, [], ?_⟩
  have empty := @WebSocket.Queued.straight
    { s.ws with sendQueueTail := s.ws.sendQueueHead, sent := s.ws.sent ++ blocks } [] (.nil even)
  rwa [Nat.sub_self] at empty

theorem InQueue.step (inQueue : s.InQueue) (room : s.HasRoom call) (step : sending.Step s call t) :
    t.InQueue := by
  cases call with
  | sendTextNoblock payloadSus =>
    obtain rfl : t = s.handOver payloadSus := step
    exact inQueue.handOver room
  | flushSendQueueBlocking =>
    obtain ⟨ws, flushes, rfl⟩ := step
    exact inQueue.flush flushes

theorem inQueue_reachable (reached : sending.ReachableUnder HasRoom s) : s.InQueue := by
  have atStart (s : Sending) (start : sending.Start s) : s.InQueue := by
    obtain ⟨established, head, tail, -, -, -, spent⟩ := start
    refine ⟨established, by rw [head]; decide, [], ?_⟩
    have empty := @WebSocket.Queued.straight s.ws [] (by rw [head, tail]; exact .nil rfl)
    rwa [head, tail, Nat.sub_self, ← spent] at empty
  exact System.ReachableUnder.invariant atStart (fun s call t inQueue room step => inQueue.step room step) reached

theorem InQueue.ends (inQueue : s.InQueue) : FlushEnds s.ws := by
  obtain ⟨established, inside, payloads, queue⟩ := inQueue
  obtain ⟨⟨blocks, -, leaves⟩, look⟩ := queue.leaves inside
  exact ⟨⟨_, (if_pos established).mpr leaves⟩, look⟩

/-- As long as the texts handed over between two flushes take up less than the queue, a flush
comes to an end at any time. -/
theorem flushEnds (run : sending.Run) (room : ∀ i < run.length, (run.state i).HasRoom (run.action i)) :
    ∀ i ≤ run.length, FlushEnds (run.state i).ws := by
  intro i within
  have reached := run.reachableUnder i within fun j before => room j (by omega)
  exact (inQueue_reachable reached).ends

theorem Fits.hasRoom (fits : s.Fits call) : s.HasRoom call := by
  cases call with
  | flushSendQueueBlocking => trivial
  | sendTextNoblock payloadSus =>
    cases payloadSus with
    | none => exact absurd fits id
    | some payload =>
      have some_ : payload.chars ≠ [] := List.ne_nil_of_length_pos (Nat.lt_of_lt_of_le Nat.zero_lt_two fits.1)
      have same : enforceAndWarnTextLimits (some payload) = payload := if_neg some_
      rw [HasRoom, same]
      exact fits.2

theorem wrapping_flushEnds : ∃ run : sending.Run, run.length = 6 ∧ (run.state 3).ws.sendQueueHead = 0xc0018 ∧
    (run.state 4).ws.sendQueueHead = 0x90010 ∧ ∀ i ≤ 6, FlushEnds (run.state i).ws := by
  obtain ⟨run, length, fits, before, behind, -⟩ := exists_wrapping
  have ends := flushEnds run fun i within => (fits i (by omega)).hasRoom
  exact ⟨run, length, before, behind, by rwa [length] at ends⟩

section Overrun
open Queueing

def seven : CText := ⟨[0x73, 0x65, 0x76, 0x65, 0x6e, 0x2e, 0x2e], by decide⟩

/-- A short text is sent, so that the tail is behind the start of the buffer. -/
def sevenSent : Sending := (empty.handOver (some seven)).flushTo
  { (empty.handOver (some seven)).ws with
    sendQueueTail := 16
    sent := [⟨0, [0x81, 0x07, 0x73, 0x65, 0x76, 0x65, 0x6e, 0x2e, 0x2e]⟩] }

theorem flush_seven : (empty.handOver (some seven)).ws.FlushSendQueueBlocking sevenSent.ws :=
  @leaves_of_runFor _ _ _ _ _ 2 rfl

/-- A text that is not ASCII. -/
def textC (n : Nat) : CText := long n 0xff (by decide)

/-- Then two long texts, of which the second one runs over the tail. -/
def overrun (n : Nat) : sending.Run where
  length := 4
  state i :=
    match i with
    | 0 => empty
    | 1 => empty.handOver (some seven)
    | 2 => sevenSent
    | 3 => sevenSent.handOver (some (textB n))
    | _ => (sevenSent.handOver (some (textB n))).handOver (some (textC n))
  action i :=
    match i with
    | 0 => .sendTextNoblock (some seven)
    | 1 => .flushSendQueueBlocking
    | 2 => .sendTextNoblock (some (textB n))
    | _ => .sendTextNoblock (some (textC n))
  start := ⟨rfl, rfl, rfl, rfl, rfl, rfl, rfl⟩
  step i within := by
    match i with
    | 0 => rfl
    | 1 => exact ⟨_, flush_seven, rfl⟩
    | 2 => rfl
    | 3 => rfl

/-- Under the tail there is no header, the step is zero, and the flush goes on forever. -/
theorem not_flushEnds_overrun {n : Nat} (size : TooLongForTwo n) : ¬FlushEnds ((overrun n).state 4).ws := by
  rintro ⟨⟨t, flushes⟩, -⟩
  have least := size.1
  have most := size.2
  have sizeEq : SEND_QUEUE_SIZE = 0x100000 := rfl
  have endEq : sendQueueBufEnd = 0xfffff := rfl
  have sentB := @size.large.sendTextNoblock _ 0x62 (by decide) sevenSent.ws rfl
  have dstB : (textB n).dst 16 = 16 := by
    apply CText.dst_of_fits
    rw [textB, size.large.fLen]
    unfold FitsAtHead
    omega
  have headB : ((overrun n).state 3).ws.sendQueueHead = alignUp (26 + n) := by
    have above := alignUp_lt (26 + n)
    have sum : 16 + (10 + n) = 26 + n := by omega
    apply (congrArg WebSocket.sendQueueHead sentB).trans
    show (textB n).nextHead 16 = _
    rw [CText.nextHead_of_small, dstB, textB, size.large.fLen, sum]
    rw [dstB, textB, size.large.fLen, sum]
    omega
  have established : ((overrun n).state 3).ws.isWsEstablished = true := congrArg WebSocket.isWsEstablished sentB
  have tailB : ((overrun n).state 3).ws.sendQueueTail = 16 := congrArg WebSocket.sendQueueTail sentB
  have dstC : (textC n).dst ((overrun n).state 3).ws.sendQueueHead = 0 := by
    have up := le_alignUp (26 + n)
    apply CText.dst_of_not_fits
    rw [headB, textC, size.large.fLen]
    unfold FitsAtHead
    omega
  have sentC := @size.large.sendTextNoblock _ 0xff (by decide) _ established
  have tail : ((overrun n).state 4).ws.sendQueueTail = 16 :=
    (congrArg WebSocket.sendQueueTail sentC).trans tailB
  have head : ((overrun n).state 4).ws.sendQueueHead = alignUp (10 + n) := by
    have above := alignUp_lt (10 + n)
    apply (congrArg WebSocket.sendQueueHead sentC).trans
    show (textC n).nextHead _ = _
    rw [CText.nextHead_of_small, dstC, textC, size.large.fLen, Nat.zero_add]
    rw [dstC, textC, size.large.fLen, Nat.zero_add]
    omega
  have char {j : Nat} (from_ : 10 ≤ j) (below : j < 10 + n) : ((overrun n).state 4).ws.memory j = 0xff :=
    @size.large.memory_at _ 0xff (by decide) _ established dstC j from_ below
  have established' : ((overrun n).state 4).ws.isWsEstablished = true :=
    (congrArg WebSocket.isWsEstablished sentC).trans established
  have up := le_alignUp (10 + n)
  have first := @char 16 (by omega) (by omega)
  have second := @char 17 (by omega) (by omega)
  have fixed := @WebSocket.flushBody_stuck ((overrun n).state 4).ws (by omega) (by rw [tail]) (by rw [tail]; decide)
    (by rw [tail, first]; decide) (by rw [tail, second]; decide)
  exact not_leaves_of_fixed fixed ((if_pos established').mp flushes)

theorem overrun_not_flushEnds : ¬FlushEnds ((overrun 0x90000).state 4).ws :=
  not_flushEnds_overrun ⟨by decide, by decide⟩

end Overrun

end Sending

end LotusKit.Server

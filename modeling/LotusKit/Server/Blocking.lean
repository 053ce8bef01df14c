import LotusKit.Server.Framed
import LotusKit.Server.Room

/-! Texts that are sent at once, against texts that go through the queue. The two agree unless
the queued frame goes to the start of the buffer and reaches up to where the tail is. -/

namespace LotusKit.Server
open LotusKit.Lib.Memory LotusKit.Lib.Repeat LotusKit.Lib.Transition SendFrame

namespace WebSocket

/-- What `sendTextBlocking` passes to `Send`. -/
def sendTextBlocking (payloadSus : Option CText) (s : WebSocket) : List (List UInt8) :=
  if s.isWsEstablished then
    let payload := enforceAndWarnTextLimits payloadSus
    if payload.fLen < 4 then [] else [payload.frame]
  else []

/-- The text put into the queue and flushed is sent as it is when sent at once, and the queue
is empty after that. -/
def SendsAlike (payloadSus : Option CText) (s : WebSocket) : Prop :=
  ∃ t blocks, (s.sendTextNoblock payloadSus).FlushSendQueueBlocking t ∧ t.sent = s.sent ++ blocks ∧
    blocks.map Block.bytes = s.sendTextBlocking payloadSus ∧ t.sendQueueTail = t.sendQueueHead

/-- The frame is put at the head, or else it ends before the head. -/
def StaysApart (payload : CText) (head : Nat) : Prop :=
  FitsAtHead head payload.frame.length ∨ alignUp payload.frame.length < head

variable {s t : WebSocket} {payload : CText}

theorem sent_dequeueFrame (fLen : Nat) (s : WebSocket) : (s.dequeueFrame fLen).sent = s.sent := by
  unfold dequeueFrame
  split
  · rfl
  · rfl

theorem dequeueFrame_inside {fLen : Nat} (first : s.memory s.sendQueueTail ≠ 0)
    (inside : alignUp (s.sendQueueTail + fLen) < sendQueueBufEnd) :
    s.dequeueFrame fLen = { s with sendQueueTail := alignUp (s.sendQueueTail + fLen) } := by
  rw [dequeueFrame, if_neg first]
  simp only
  rw [if_neg (Nat.not_le_of_lt inside)]

theorem sent_of_leaves (leaves : Leaves flushBody s t) : s.sent <+: t.sent := by
  induction leaves with
  | now left =>
    unfold flushBody at left
    split at left
    · obtain rfl := Sum.inr.inj left
      exact List.prefix_rfl
    · cases left
  | @later s s' t goesOn _ ih =>
    refine List.IsPrefix.trans ?_ ih
    unfold flushBody at goesOn
    split at goesOn
    · cases goesOn
    · obtain rfl := Sum.inl.inj goesOn
      rw [sent_dequeueFrame]
      split
      · exact List.prefix_append _ _
      · exact List.prefix_rfl

/-- What is enqueued into an empty queue, and sent. -/
theorem leaves_of_apart (even : s.sendQueueHead % 8 = 0) (inside : s.sendQueueHead < sendQueueBufEnd)
    (empty : s.sendQueueTail = s.sendQueueHead) {payloadSus : Option CText}
    (half : (enforceAndWarnTextLimits payloadSus).serialized.length < SEND_QUEUE_SIZE / 2)
    (apart : StaysApart (enforceAndWarnTextLimits payloadSus) s.sendQueueHead) :
    ∃ blocks : List (Block UInt8), blocks.map Block.bytes =
        [(enforceAndWarnTextLimits payloadSus).frame].filter (3 < ·.length) ∧
      Leaves flushBody (s.enqueueText payloadSus)
        { s.enqueueText payloadSus with
          sendQueueTail := (s.enqueueText payloadSus).sendQueueHead
          sent := s.sent ++ blocks } := by
  have sizeEq : SEND_QUEUE_SIZE = 0x100000 := rfl
  have whole := (enforceAndWarnTextLimits payloadSus).serialized_eq (by omega)
  have up := alignUp_lt (enforceAndWarnTextLimits payloadSus).frame.length
  have nothing : s.Queued [] 0 := by
    have straight := @Queued.straight s [] (by rw [empty]; exact .nil even)
    rwa [empty, Nat.sub_self] at straight
  have room : 0 + (enforceAndWarnTextLimits payloadSus).cost s.sendQueueHead < SEND_QUEUE_SIZE := by
    rw [whole] at half
    have fLen := (enforceAndWarnTextLimits payloadSus).fLen_eq (by omega)
    rw [CText.cost, CText.skipped, whole, fLen, Nat.zero_add]
    split
    next => omega
    next notAtHead =>
      rw [not_or] at notAtHead
      have before := apart.resolve_left notAtHead.1
      have endEq : sendQueueBufEnd = 0xfffff := rfl
      omega
  obtain ⟨queued, inside'⟩ := nothing.enqueue inside room
  obtain ⟨⟨blocks, bytes, leaves⟩, -⟩ := queued.leaves inside'
  exact ⟨blocks, bytes, leaves⟩

/-- Bytes of the text, none of which is zero. -/
theorem frame_ne_zero {j : Nat} (behind : payload.hLen ≤ j) {b : UInt8} (there : payload.frame[j]? = some b) :
    b ≠ 0 := by
  have header := payload.length_header
  rw [CText.frame, List.getElem?_append_right (by omega)] at there
  rintro rfl
  exact payload.nulFree (List.mem_of_mem_take (List.mem_of_getElem? there))

/-- A frame at the start of the buffer that reaches up to the tail is not sent. -/
theorem not_sent_of_not_apart (even : s.sendQueueHead % 8 = 0)
    (empty : s.sendQueueTail = s.sendQueueHead) {payloadSus : Option CText}
    (half : (enforceAndWarnTextLimits payloadSus).serialized.length < SEND_QUEUE_SIZE / 2)
    (near : ¬StaysApart (enforceAndWarnTextLimits payloadSus) s.sendQueueHead)
    (leaves : Leaves flushBody (s.enqueueText payloadSus) t) {blocks : List (Block UInt8)}
    (sent : t.sent = s.sent ++ blocks) :
    blocks.map Block.bytes ≠ [(enforceAndWarnTextLimits payloadSus).frame] := by
  have sizeEq : SEND_QUEUE_SIZE = 0x100000 := rfl
  have endEq : sendQueueBufEnd = 0xfffff := rfl
  have most := (enforceAndWarnTextLimits payloadSus).hLen_bounds.2
  rw [enqueueText] at leaves
  generalize enforceAndWarnTextLimits payloadSus = payload at *
  have whole := payload.serialized_eq (by omega)
  rw [whole] at half
  have fLen := payload.fLen_eq (by omega)
  have up := le_alignUp payload.frame.length
  have least := alignUp_le (m := 0x80000) (n := payload.frame.length) (by omega) (by decide)
  have above := alignUp_lt payload.frame.length
  have multiple := alignUp_mod payload.frame.length
  rw [StaysApart, not_or] at near
  obtain ⟨full, before⟩ := near
  rw [← fLen] at full
  have past : ¬s.sendQueueHead + payload.fLen ≤ sendQueueBufEnd - 0x10 := full
  have dst := payload.dst_of_not_fits full
  have enqueues := @enqueues s payload (by rw [dst]) (by omega)
  obtain ⟨tail, head, placed, -, zeroed⟩ := enqueues
  have sent' : ({ s with
      memory := storeAll (payload.writes s.sendQueueHead) s.memory
      sendQueueHead := payload.nextHead s.sendQueueHead } : WebSocket).sent = s.sent := rfl
  generalize ({ s with
      memory := storeAll (payload.writes s.sendQueueHead) s.memory
      sendQueueHead := payload.nextHead s.sendQueueHead } : WebSocket) = q at *
  rw [dst, Nat.zero_add] at head
  rw [dst] at placed
  by_cases full_ : s.sendQueueHead = alignUp payload.frame.length
  · -- the head comes to the tail, and the queue looks empty
    have now : q.flushBody = .inr q := if_pos (by omega)
    obtain rfl := leaves.unique (.now now)
    rw [sent'] at sent
    have none_ := List.append_cancel_left ((List.append_nil s.sent).trans sent)
    rw [← none_]
    exact List.cons_ne_nil _ _ ∘ Eq.symm
  · -- the tail is over the last bytes of the text, and behind them all is zero
    have place : s.sendQueueHead = 0x7fff8 := by omega
    have behind : q.sendQueueTail ≠ q.sendQueueHead := by omega
    have inFrame : q.sendQueueTail < payload.frame.length := by omega
    have first : q.memory q.sendQueueTail ≠ 0 := by
      have read := placed.get inFrame
      rw [Nat.zero_add] at read
      rw [read]
      exact frame_ne_zero (by omega) (List.getElem?_eq_getElem inFrame)
    have zero : q.memory (q.sendQueueTail + 16) = 0 := zeroed full _ (by omega) (by omega) (by omega)
    cases leaves with
    | now left =>
      rw [flushBody, if_neg behind] at left
      cases left
    | @later _ next _ goesOn rest =>
      have taken := goesOn
      rw [flushBody, if_neg behind] at taken
      replace taken := Sum.inl.inj taken
      generalize getSerializedFrameSize (fun i => q.memory (q.sendQueueTail + i)) = size at taken
      by_cases sends : 3 < size
      · rw [if_pos sends] at taken
        have start : next.sent = s.sent ++ [⟨q.sendQueueTail, load q.memory q.sendQueueTail size⟩] := by
          rw [← taken, sent_dequeueFrame, send, sent']
        obtain ⟨more, all⟩ := sent_of_leaves rest
        rw [start, sent, List.append_assoc] at all
        rw [← List.append_cancel_left all]
        intro same
        have block : load q.memory q.sendQueueTail size = payload.frame := (List.cons.inj same).1
        have length := congrArg List.length block
        rw [length_load] at length
        have inside16 : 16 < payload.frame.length := by omega
        have there : payload.frame[16]? = some 0 := by
          rw [← block, load, List.getElem?_map, List.getElem?_range (by omega), Option.map_some, zero]
        exact frame_ne_zero (by omega) there rfl
      · -- less than a frame is stepped over
        have multiple' := alignUp_mod (q.sendQueueTail + size)
        have low := le_alignUp (q.sendQueueTail + size)
        have high := alignUp_lt (q.sendQueueTail + size)
        rw [if_neg sends, dequeueFrame_inside first (by omega)] at taken
        by_cases nothing : alignUp (q.sendQueueTail + size) = q.sendQueueTail
        · -- the tail stays where it is
          rw [nothing] at taken
          obtain rfl := taken
          exact absurd rest (not_leaves_of_fixed goesOn)
        · -- the tail comes to the head
          have arrives : alignUp (q.sendQueueTail + size) = q.sendQueueHead := by omega
          rw [arrives] at taken
          obtain rfl := taken
          obtain rfl := rest.unique (.now (if_pos rfl))
          have same := List.append_cancel_left (((List.append_nil s.sent).trans sent'.symm).trans sent)
          rw [← same]
          exact List.cons_ne_nil _ _ ∘ Eq.symm

/-- The direct way leaves out what the queue leaves out. -/
theorem sendTextBlocking_eq (established : s.isWsEstablished = true) {payloadSus : Option CText}
    (small : (enforceAndWarnTextLimits payloadSus).frame.length < 2 ^ 32) :
    s.sendTextBlocking payloadSus = [(enforceAndWarnTextLimits payloadSus).frame].filter (3 < ·.length) := by
  rw [sendTextBlocking, if_pos established]
  simp only [CText.fLen_eq small, List.filter_singleton]
  by_cases short : (enforceAndWarnTextLimits payloadSus).frame.length < 4
  · rw [if_pos short, decide_eq_false (by omega), cond_false]
  · rw [if_neg short, decide_eq_true (by omega), cond_true]

theorem small_of_half (half : payload.serialized.length < SEND_QUEUE_SIZE / 2) :
    payload.frame.length < 2 ^ 32 := by
  have sizeEq : SEND_QUEUE_SIZE = 0x100000 := rfl
  rw [← payload.serialized_eq (by omega)]
  omega

theorem staysApart_of_sendsAlike (established : s.isWsEstablished = true) (even : s.sendQueueHead % 8 = 0)
    (empty : s.sendQueueTail = s.sendQueueHead) {payloadSus : Option CText}
    (half : (enforceAndWarnTextLimits payloadSus).serialized.length < SEND_QUEUE_SIZE / 2)
    (alike : s.SendsAlike payloadSus) : StaysApart (enforceAndWarnTextLimits payloadSus) s.sendQueueHead := by
  obtain ⟨t, blocks, flushes, sent, bytes, -⟩ := alike
  rw [sendTextNoblock, if_pos established, FlushSendQueueBlocking, enqueueText, if_pos established] at flushes
  rw [sendTextBlocking_eq established (small_of_half half)] at bytes
  by_contra near
  apply not_sent_of_not_apart even empty half near flushes sent
  rw [bytes, List.filter_eq_self]
  intro frame member
  obtain rfl := List.mem_singleton.mp member
  -- what does not fit at the head, and does not end before it, is long
  have endEq : sendQueueBufEnd = 0xfffff := rfl
  have sizeEq : SEND_QUEUE_SIZE = 0x100000 := rfl
  have fLen := CText.fLen_eq (small_of_half half)
  have above := alignUp_lt (enforceAndWarnTextLimits payloadSus).frame.length
  rw [StaysApart, not_or, FitsAtHead] at near
  exact decide_eq_true (by omega)

end WebSocket

namespace Queueing
open WebSocket (small_of_half)
variable {s : Queueing}

/-- The head is always at a place where a frame can start. -/
theorem head_reachable (reached : queueing.Reachable s) :
    s.ws.sendQueueHead % 8 = 0 ∧ s.ws.sendQueueHead < sendQueueBufEnd := by
  apply System.Reachable.invariant _ _ reached
  · rintro s ⟨head, -, -⟩
    rw [head]
    decide
  · intro s call t ⟨even, inside⟩ step
    cases call with
    | sendTextNoblock payloadSus =>
      obtain rfl : t = s.handOver payloadSus := step
      simp only [handOver, WebSocket.sendTextNoblock]
      split
      · obtain ⟨even', inside', -⟩ := nextHead_cases (enforceAndWarnTextLimits payloadSus) s.ws.sendQueueHead
        exact ⟨even', inside'⟩
      · exact ⟨even, inside⟩
    | flushSendQueueBlocking =>
      obtain ⟨ws, flushes, rfl⟩ := step
      simp only [flushTo, flushes.memory.2]
      exact ⟨even, inside⟩

/-- Sent at once or by way of an empty queue, a text of less than half of the queue is the same,
exactly as long as its frame stays apart from where the tail is. -/
theorem sendsAlike_iff (reached : queueing.Reachable s) (established : s.ws.isWsEstablished = true)
    (empty : s.ws.sendQueueTail = s.ws.sendQueueHead) (payloadSus : Option CText)
    (half : (enforceAndWarnTextLimits payloadSus).serialized.length < SEND_QUEUE_SIZE / 2) :
    s.ws.SendsAlike payloadSus ↔
      WebSocket.StaysApart (enforceAndWarnTextLimits payloadSus) s.ws.sendQueueHead := by
  obtain ⟨even, inside⟩ := head_reachable reached
  constructor
  · exact WebSocket.staysApart_of_sendsAlike established even empty half
  · intro apart
    obtain ⟨blocks, bytes, leaves⟩ := WebSocket.leaves_of_apart even inside empty half apart
    have small := small_of_half half
    rw [WebSocket.SendsAlike, WebSocket.sendTextBlocking_eq established small, WebSocket.sendTextNoblock,
      if_pos established]
    exact ⟨_, blocks, (if_pos established).mpr leaves, rfl, bytes, rfl⟩

theorem reachable_empty : queueing.Reachable empty := .start ⟨rfl, rfl, rfl⟩

/-- A text that stays apart is sent, and the queue is empty behind it. -/
theorem exists_sent (reached : queueing.Reachable s) (established : s.ws.isWsEstablished = true)
    (empty : s.ws.sendQueueTail = s.ws.sendQueueHead) {payloadSus : Option CText}
    (half : (enforceAndWarnTextLimits payloadSus).serialized.length < SEND_QUEUE_SIZE / 2)
    (apart : WebSocket.StaysApart (enforceAndWarnTextLimits payloadSus) s.ws.sendQueueHead) :
    ∃ t, queueing.Reachable t ∧ t.ws.isWsEstablished = true ∧ t.ws.sendQueueTail = t.ws.sendQueueHead ∧
      t.ws.sendQueueHead = (enforceAndWarnTextLimits payloadSus).nextHead s.ws.sendQueueHead := by
  obtain ⟨even, inside⟩ := head_reachable reached
  obtain ⟨blocks, -, leaves⟩ := WebSocket.leaves_of_apart even inside empty half apart
  have enqueued : (s.handOver payloadSus).ws = s.ws.enqueueText payloadSus := if_pos established
  have handedOver : queueing.Reachable (s.handOver payloadSus) :=
    reached.step (a := .sendTextNoblock payloadSus) rfl
  have flushes : (s.handOver payloadSus).ws.FlushSendQueueBlocking
      { s.ws.enqueueText payloadSus with
        sendQueueTail := (s.ws.enqueueText payloadSus).sendQueueHead
        sent := s.ws.sent ++ blocks } := by
    rw [enqueued]
    exact (if_pos established).mpr leaves
  exact ⟨_, handedOver.step (a := .flushSendQueueBlocking) ⟨_, flushes, rfl⟩, established, rfl, rfl⟩

/-- After two long texts, a third one goes to the start of the buffer and is sent like the space in its place. -/
theorem sendsAlike_wrapped : ∃ s, queueing.Reachable s ∧ s.ws.sendQueueHead = 0xfe020 ∧
    s.ws.SendsAlike (some (textB 0x70000)) ∧ empty.ws.SendsAlike none := by
  have long_a : Large 0x7f000 := ⟨by decide, by decide⟩
  have long_b : Large 0x70000 := ⟨by decide, by decide⟩
  have enforced := @long_a.enforce _ 0x61 (by decide)
  have half : (enforceAndWarnTextLimits (some (textA 0x7f000))).serialized.length < SEND_QUEUE_SIZE / 2 := by
    rw [textA, enforced, long_a.length_serialized]
    decide
  have fits {head : Nat} (least : head + 0x7f00a ≤ sendQueueBufEnd - 0x10) :
      WebSocket.StaysApart (enforceAndWarnTextLimits (some (textA 0x7f000))) head := by
    refine .inl ?_
    rw [textA, enforced, FitsAtHead, CText.length_frame, long_a.hLen, long_a.pLen]
    omega
  obtain ⟨s, reached, established, drained, head⟩ := exists_sent reachable_empty rfl rfl half (fits (by decide))
  have first : s.ws.sendQueueHead = 0x7f010 := by
    rw [head, textA, enforced, CText.nextHead, CText.dst, getNextFrameForEnqueue, long_a.fLen]
    decide
  obtain ⟨t, reached', established', drained', head'⟩ :=
    exists_sent reached established drained half (fits (by rw [first]; decide))
  have second : t.ws.sendQueueHead = 0xfe020 := by
    rw [head', first, textA, enforced, CText.nextHead, CText.dst, getNextFrameForEnqueue, long_a.fLen]
    decide
  refine ⟨t, reached', second, ?_, ?_⟩
  · have enforced' := @long_b.enforce _ 0x62 (by decide)
    apply (sendsAlike_iff reached' established' drained' (some (textB 0x70000)) ?_).mpr
    · refine .inr ?_
      rw [second, textB, enforced', CText.length_frame, long_b.hLen, long_b.pLen]
      decide
    · rw [textB, enforced', long_b.length_serialized]
      decide
  · apply (sendsAlike_iff reachable_empty rfl rfl none (by decide)).mpr
    exact .inl (by decide)

section Middle

/-- A text that takes up half of the queue, when its frame is rounded up. -/
def Half (n : Nat) : Prop := 0x7ffef ≤ n ∧ n ≤ 0x7fff5

variable {n : Nat}

theorem Half.large (size : Half n) : Large n := by
  obtain ⟨least, most⟩ := size
  exact ⟨by omega, by omega⟩

theorem Half.up (size : Half n) : alignUp (10 + n) = 0x80000 := by
  obtain ⟨least, most⟩ := size
  unfold alignUp
  omega

theorem Half.length_frame (size : Half n) : (textA n).frame.length = 10 + n := by
  rw [CText.length_frame, textA, size.large.hLen, size.large.pLen]

theorem Half.serialized (size : Half n) : (textA n).serialized.length < SEND_QUEUE_SIZE / 2 := by
  have sizeEq : SEND_QUEUE_SIZE = 0x100000 := rfl
  have most := size.2
  rw [textA, size.large.length_serialized]
  omega

/-- The queue is empty, and a text of less than half of it is not sent as it is. -/
def SentOtherwise (payload : CText) (s : Queueing) : Prop :=
  queueing.Reachable s ∧ s.ws.isWsEstablished = true ∧ s.ws.sendQueueTail = s.ws.sendQueueHead ∧
    payload.serialized.length < SEND_QUEUE_SIZE / 2 ∧ ¬s.ws.SendsAlike (some payload)

/-- The text is sent, and then it is not sent a second time. -/
theorem sentOtherwise_again (size : Half n) : ∃ s, SentOtherwise (textA n) s := by
  have endEq : sendQueueBufEnd = 0xfffff := rfl
  have enforced : enforceAndWarnTextLimits (some (textA n)) = textA n := size.large.enforce
  have most := size.2
  have half : (enforceAndWarnTextLimits (some (textA n))).serialized.length < SEND_QUEUE_SIZE / 2 := by
    rw [enforced]
    exact size.serialized
  have atStart : WebSocket.StaysApart (enforceAndWarnTextLimits (some (textA n))) empty.ws.sendQueueHead := by
    refine .inl ?_
    rw [enforced, FitsAtHead, size.length_frame]
    show 0 + (10 + n) ≤ _
    omega
  obtain ⟨s, reached, established, drained, next⟩ := exists_sent reachable_empty rfl rfl half atStart
  have head : s.ws.sendQueueHead = 0x80000 := by
    have put := @size.large.nextHead _ 0x61 (by decide)
    rw [size.up] at put
    rw [next, enforced]
    exact put
  refine ⟨s, reached, established, drained, size.serialized, fun alike => ?_⟩
  have apart := WebSocket.staysApart_of_sendsAlike established (by rw [head]) drained half alike
  rw [enforced, head, WebSocket.StaysApart, FitsAtHead, size.length_frame, size.up] at apart
  have least := size.1
  omega

theorem half_sentOtherwise : ∃ s, SentOtherwise (textA 0x7fff5) s :=
  sentOtherwise_again ⟨by decide, by decide⟩

end Middle

end Queueing

end LotusKit.Server

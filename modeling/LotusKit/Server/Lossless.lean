import LotusKit.Lib.Transition
import LotusKit.Server.Framed

/-! The send queue as a FIFO: whatever the program hands over between two flushes is sent
by the second one, as long as it all fits. -/

namespace LotusKit.Server
open LotusKit.Lib.Memory LotusKit.Lib.Repeat LotusKit.Lib.Transition SendFrame

/-- The texts whose frames stand one behind the other, from `a` up to `b`. -/
inductive Stored (mem : Nat → UInt8) : Nat → List CText → Nat → Prop
  | nil {a : Nat} : a % 8 = 0 → Stored mem a [] a
  | cons {a b : Nat} {payload : CText} {rest : List CText} : a % 8 = 0 →
      Holds mem ⟨a, payload.frame⟩ → 3 < payload.frame.length → payload.frame.length < 2 ^ 32 →
      Stored mem (a + alignUp payload.frame.length) rest b → Stored mem a (payload :: rest) b

theorem Stored.framed {mem : Nat → UInt8} {a b : Nat} {payloads : List CText}
    (stored : Stored mem a payloads b) :
    Framed mem a payloads b ∧ ∀ payload ∈ payloads, 3 < payload.frame.length := by
  induction stored with
  | nil even => exact ⟨.nil even, List.forall_mem_nil _⟩
  | cons even holds sends small _ ih =>
    exact ⟨.cons even holds small ih.1, List.forall_mem_cons.mpr ⟨sends, ih.2⟩⟩

theorem Framed.stored {mem : Nat → UInt8} {a b : Nat} {payloads : List CText}
    (framed : Framed mem a payloads b) (sends : ∀ payload ∈ payloads, 3 < payload.frame.length) :
    Stored mem a payloads b := by
  induction framed with
  | nil even => exact .nil even
  | cons even holds small _ ih =>
    obtain ⟨own, rest⟩ := List.forall_mem_cons.mp sends
    exact .cons even holds own small (ih rest)

namespace WebSocket
variable {s : WebSocket} {payloads : List CText} {spent : Nat}

/-- What waits in the queue, in one stretch or in two, and how much of it is taken up. -/
inductive Waiting (s : WebSocket) : List CText → Nat → Prop
  | straight {payloads : List CText} (stored : Stored s.memory s.sendQueueTail payloads s.sendQueueHead) :
      Waiting s payloads (s.sendQueueHead - s.sendQueueTail)
  | wrapped {front back : List CText} {last : Nat}
      (stored : Stored s.memory s.sendQueueTail front last)
      (zeros : s.memory last = 0 ∧ s.memory (last + 1) = 0) (inside : last < sendQueueBufEnd)
      (stored' : Stored s.memory 0 back s.sendQueueHead) (some_ : 0 < s.sendQueueHead)
      (below : s.sendQueueHead < s.sendQueueTail) :
      Waiting s (front ++ back) (SEND_QUEUE_SIZE - s.sendQueueTail + s.sendQueueHead)

/-- All that waits is long enough to be sent. -/
theorem Waiting.queued (waiting : s.Waiting payloads spent) :
    s.Queued payloads spent ∧ ∀ payload ∈ payloads, 3 < payload.frame.length := by
  cases waiting with
  | straight stored => exact ⟨.straight stored.framed.1, stored.framed.2⟩
  | wrapped stored zeros inside stored' some_ below =>
    exact ⟨.wrapped stored.framed.1 zeros inside stored'.framed.1 some_ below,
      List.forall_mem_append.mpr ⟨stored.framed.2, stored'.framed.2⟩⟩

theorem Queued.waiting (queued : s.Queued payloads spent)
    (sends : ∀ payload ∈ payloads, 3 < payload.frame.length) : s.Waiting payloads spent := by
  cases queued with
  | straight framed => exact .straight (framed.stored sends)
  | wrapped framed zeros inside framed' some_ below =>
    obtain ⟨front, back⟩ := List.forall_mem_append.mp sends
    exact .wrapped (framed.stored front) zeros inside (framed'.stored back) some_ below

/-- A flush sends what waits, and nothing is left. -/
theorem Waiting.leaves (waiting : s.Waiting payloads spent)
    (inside : s.sendQueueHead < sendQueueBufEnd) :
    ∃ blocks : List (Block UInt8), blocks.map Block.bytes = payloads.map CText.frame ∧
      Leaves flushBody s
        { s with sendQueueTail := s.sendQueueHead, sent := s.sent ++ blocks } := by
  obtain ⟨queued, sends⟩ := waiting.queued
  obtain ⟨⟨blocks, bytes, leaves⟩, -⟩ := queued.leaves inside
  refine ⟨blocks, ?_, leaves⟩
  rw [bytes, List.filter_eq_self]
  intro frame member
  obtain ⟨payload, within, rfl⟩ := List.mem_map.mp member
  exact decide_eq_true (sends payload within)

theorem Waiting.head_aligned (waiting : s.Waiting payloads spent) : s.sendQueueHead % 8 = 0 :=
  waiting.queued.1.head_aligned

end WebSocket

/-- The queue, the texts handed over to it so far and up to the last flush, and how much
of the queue they have taken up since then. -/
structure Sending where
  ws : WebSocket
  handedOver : List CText
  flushed : List CText
  spent : Nat

theorem WebSocket.FlushSendQueueBlocking.unique {s t t' : WebSocket} (first : s.FlushSendQueueBlocking t)
    (established : s.isWsEstablished = true) (second : s.FlushSendQueueBlocking t') : t = t' := by
  unfold FlushSendQueueBlocking at first second
  rw [if_pos established] at first second
  exact first.unique second

namespace Sending

def handOver (payloadSus : Option CText) (s : Sending) : Sending where
  ws := s.ws.sendTextNoblock payloadSus
  handedOver := s.handedOver ++ [enforceAndWarnTextLimits payloadSus]
  flushed := s.flushed
  spent := s.spent + (enforceAndWarnTextLimits payloadSus).cost s.ws.sendQueueHead

def flushTo (ws : WebSocket) (s : Sending) : Sending where
  ws := ws
  handedOver := s.handedOver
  flushed := s.handedOver
  spent := 0

/-- A text of at least two bytes that leaves the queue less than full. -/
def Fits (s : Sending) (call : Call) : Prop :=
  match call with
  | .sendTextNoblock none => False
  | .sendTextNoblock (some payload) =>
    2 ≤ payload.chars.length ∧ s.spent + payload.cost s.ws.sendQueueHead < SEND_QUEUE_SIZE
  | .flushSendQueueBlocking => True

end Sending

/-- What the program does on an established websocket, in any order. -/
def sending : System Sending Call where
  Start s := s.ws.isWsEstablished = true ∧ s.ws.sendQueueHead = 0 ∧ s.ws.sendQueueTail = 0 ∧
    s.ws.sent = [] ∧ s.handedOver = [] ∧ s.flushed = [] ∧ s.spent = 0
  Step s call t :=
    match call with
    | .sendTextNoblock payloadSus => t = s.handOver payloadSus
    | .flushSendQueueBlocking => ∃ ws, s.ws.FlushSendQueueBlocking ws ∧ t = s.flushTo ws

namespace WebSocket
variable {s : WebSocket} {payload : CText} {payloads : List CText} {spent : Nat}

/-- One more text waits, when it leaves the queue less than full. -/
theorem Waiting.enqueue (waiting : s.Waiting payloads spent) (inside : s.sendQueueHead < sendQueueBufEnd)
    (long : 2 ≤ payload.chars.length)
    (fits : spent + payload.cost s.sendQueueHead < SEND_QUEUE_SIZE) :
    (s.enqueueText (some payload)).Waiting (payloads ++ [payload]) (spent + payload.cost s.sendQueueHead) ∧
      (s.enqueueText (some payload)).sendQueueHead < sendQueueBufEnd := by
  have same : enforceAndWarnTextLimits (some payload) = payload := by
    have some_ : payload.chars ≠ [] := List.ne_nil_of_length_pos (by omega)
    exact if_neg some_
  have own : 3 < payload.frame.length := by
    have size := le_alignUp payload.serialized.length
    have sizeEq : SEND_QUEUE_SIZE = 0x100000 := rfl
    have header := payload.length_header
    have least := payload.hLen_bounds.1
    rw [CText.cost] at fits
    rw [← payload.serialized_eq (by omega), CText.serialized, List.length_append]
    omega
  obtain ⟨queued, sends⟩ := waiting.queued
  have next := @queued.enqueue s _ _ inside (some payload) (by rwa [same])
  rw [same] at next
  refine ⟨next.1.waiting ?_, next.2⟩
  exact List.forall_mem_append.mpr ⟨sends, List.forall_mem_singleton.mpr own⟩

end WebSocket

namespace Sending
variable {s t : Sending} {call : Call}

/-- What holds between the calls. -/
structure Ready (s : Sending) : Prop where
  established : s.ws.isWsEstablished = true
  inside : s.ws.sendQueueHead < sendQueueBufEnd
  sent : s.ws.sent.map Block.bytes = s.flushed.map CText.serialized
  whole : ∀ payload ∈ s.handedOver, payload.frame = payload.serialized
  queue : ∃ waiting, s.handedOver = s.flushed ++ waiting ∧ s.ws.Waiting waiting s.spent

theorem Ready.handOver (ready : s.Ready) {payloadSus : Option CText}
    (fits : s.Fits (.sendTextNoblock payloadSus)) : (s.handOver payloadSus).Ready := by
  obtain ⟨established, inside, sent, whole, waiting, split_, queue⟩ := ready
  cases payloadSus with
  | none => exact absurd fits id
  | some payload =>
    obtain ⟨long, room⟩ := fits
    have some_ : payload.chars ≠ [] := List.ne_nil_of_length_pos (by omega)
    have same : enforceAndWarnTextLimits (some payload) = payload := if_neg some_
    obtain ⟨queue', inside'⟩ := queue.enqueue inside long room
    have small : payload.serialized.length < 2 ^ 32 := by
      have size := le_alignUp payload.serialized.length
      unfold CText.cost SEND_QUEUE_SIZE at room
      omega
    have next : s.ws.sendTextNoblock (some payload) = s.ws.enqueueText (some payload) := if_pos established
    have state : s.handOver (some payload) =
        { ws := s.ws.enqueueText (some payload)
          handedOver := s.handedOver ++ [payload]
          flushed := s.flushed
          spent := s.spent + payload.cost s.ws.sendQueueHead } := by
      rw [Sending.handOver, next, same]
    rw [state]
    refine ⟨established, inside', sent, fun other member => ?_, waiting ++ [payload], ?_, queue'⟩
    · rcases List.mem_append.mp member with before | last
      · exact whole other before
      · rw [List.mem_singleton.mp last]
        exact (payload.serialized_eq small).symm
    · rw [split_, List.append_assoc]

/-- A flush returns, and leaves nothing behind. -/
theorem Ready.flush (ready : s.Ready) : ∃ ws, s.ws.FlushSendQueueBlocking ws ∧
    (s.flushTo ws).Ready ∧ ws.sendQueueTail = ws.sendQueueHead := by
  obtain ⟨established, inside, sent, whole, waiting, split_, queue⟩ := ready
  obtain ⟨blocks, bytes, leaves⟩ := queue.leaves inside
  have even := queue.head_aligned
  refine ⟨_, (if_pos established).mpr leaves, ⟨established, inside, ?_, whole, [], ?_, ?_⟩, rfl⟩
  · have frames : waiting.map CText.frame = waiting.map CText.serialized := by
      apply List.map_congr_left
      intro payload member
      apply whole
      rw [split_]
      exact List.mem_append_right _ member
    simp only [flushTo, List.map_append, sent, bytes, frames, split_]
  · exact (List.append_nil _).symm
  · have empty := @WebSocket.Waiting.straight
      { s.ws with sendQueueTail := s.ws.sendQueueHead, sent := s.ws.sent ++ blocks } [] (.nil even)
    rwa [Nat.sub_self] at empty

theorem Ready.step (ready : s.Ready) (fits : s.Fits call) (step : sending.Step s call t) : t.Ready := by
  cases call with
  | sendTextNoblock payloadSus =>
    obtain rfl : t = s.handOver payloadSus := step
    exact ready.handOver fits
  | flushSendQueueBlocking =>
    obtain ⟨ws, flushes, rfl⟩ := step
    obtain ⟨ws', flushes', ready', -⟩ := ready.flush
    obtain rfl := flushes.unique ready.established flushes'
    exact ready'

theorem ready_reachable (reached : sending.ReachableUnder Fits s) : s.Ready := by
  have atStart (s : Sending) (start : sending.Start s) : s.Ready := by
    obtain ⟨established, head, tail, sent, handedOver, flushed, spent⟩ := start
    refine ⟨established, by rw [head]; decide, by rw [sent, flushed]; rfl, ?_, [], ?_, ?_⟩
    · rw [handedOver]
      exact List.forall_mem_nil _
    · rw [handedOver, flushed, List.append_nil]
    · have empty := @WebSocket.Waiting.straight s.ws [] (by rw [head, tail]; exact .nil rfl)
      rwa [head, tail, Nat.sub_self, ← spent] at empty
  exact System.ReachableUnder.invariant atStart (fun s call t ready fits step => ready.step fits step) reached

/-- The queue is a FIFO that loses nothing. -/
structure Lossless (run : sending.Run) : Prop where
  /-- What was sent are the frames of the texts up to the last flush, each one whole. -/
  fifo : ∀ i ≤ run.length, (run.state i).flushed <+: (run.state i).handedOver ∧
    (run.state i).ws.sent.map Block.bytes = (run.state i).flushed.map CText.serialized
  /-- A flush sends everything that was handed over before. -/
  drained : ∀ i < run.length, run.action i = .flushSendQueueBlocking →
    (run.state (i + 1)).ws.sent.map Block.bytes = (run.state i).handedOver.map CText.serialized ∧
      (run.state (i + 1)).ws.sendQueueTail = (run.state (i + 1)).ws.sendQueueHead
  returns : ∀ i ≤ run.length, ∃ ws, (run.state i).ws.FlushSendQueueBlocking ws

theorem lossless (run : sending.Run) (fits : ∀ i < run.length, (run.state i).Fits (run.action i)) :
    Lossless run := by
  have ready (i : Nat) (within : i ≤ run.length) : (run.state i).Ready :=
    ready_reachable (run.reachableUnder i within fun j before => fits j (by omega))
  refine ⟨fun i within => ?_, fun i within flush => ?_, fun i within => ?_⟩
  · obtain ⟨waiting, split_, -⟩ := (ready i within).queue
    exact ⟨⟨waiting, split_.symm⟩, (ready i within).sent⟩
  · have step := run.step i within
    rw [flush] at step
    obtain ⟨ws, flushes, next⟩ := step
    obtain ⟨ws', flushes', ready', drained⟩ := (ready i (Nat.le_of_lt within)).flush
    obtain rfl := flushes.unique (ready i (Nat.le_of_lt within)).established flushes'
    rw [next]
    exact ⟨ready'.sent, drained⟩
  · obtain ⟨ws, flushes, -⟩ := (ready i within).flush
    exact ⟨ws, flushes⟩

theorem nulFree_hi : (0 : UInt8) ∉ [0x68, 0x69] := by decide

def hi : CText := ⟨[0x68, 0x69], nulFree_hi⟩

def empty : Sending := ⟨⟨true, fun _ => 0, 0, 0, []⟩, [], [], 0⟩

section Wrapping
open Queueing

/-- A short text and a long one are handed over. -/
def filled : Sending := (empty.handOver (some hi)).handOver (some (textA 0xc0000))

theorem large_a : Large 0xc0000 := ⟨by decide, by decide⟩

theorem large_b : Large 0x90000 := ⟨by decide, by decide⟩

theorem fits_hi : empty.Fits (.sendTextNoblock (some hi)) := ⟨by decide, by decide⟩

theorem fits_a : (empty.handOver (some hi)).Fits (.sendTextNoblock (some (textA 0xc0000))) := by
  refine ⟨?_, ?_⟩
  · rw [textA, long, List.length_replicate]
    decide
  · have head : (empty.handOver (some hi)).ws.sendQueueHead = 8 := by decide
    have spent : (empty.handOver (some hi)).spent = 8 := by decide
    rw [head, spent, CText.cost, CText.skipped, textA, large_a.fLen, large_a.length_serialized]
    decide

theorem ready_empty : empty.Ready :=
  ⟨rfl, by decide, rfl, List.forall_mem_nil _, [], rfl, .straight (.nil rfl)⟩

theorem ready_filled : filled.Ready := (ready_empty.handOver fits_hi).handOver fits_a

theorem head_filled : filled.ws.sendQueueHead = 0xc0018 := by
  have sent := @large_a.sendTextNoblock _ 0x61 (by decide) (empty.handOver (some hi)).ws rfl
  apply (congrArg WebSocket.sendQueueHead sent).trans
  have head : (empty.handOver (some hi)).ws.sendQueueHead = 8 := by decide
  rw [head, CText.nextHead, CText.dst, getNextFrameForEnqueue, large_a.fLen]
  decide

variable {ws : WebSocket}

theorem fits_b (flushes : filled.ws.FlushSendQueueBlocking ws) :
    (filled.flushTo ws).Fits (.sendTextNoblock (some (textB 0x90000))) := by
  refine ⟨?_, ?_⟩
  · rw [textB, long, List.length_replicate]
    decide
  · have head : (filled.flushTo ws).ws.sendQueueHead = 0xc0018 := flushes.memory.2.trans head_filled
    have spent : (filled.flushTo ws).spent = 0 := rfl
    rw [head, spent, CText.cost, CText.skipped, textB, large_b.fLen, large_b.length_serialized]
    decide

/-- The second long text goes to the start of the buffer. -/
theorem wraps (flushes : filled.ws.FlushSendQueueBlocking ws) (established : ws.isWsEstablished = true) :
    ((filled.flushTo ws).handOver (some (textB 0x90000))).ws.sendQueueHead = 0x90010 := by
  have sent := @large_b.sendTextNoblock _ 0x62 (by decide) ws established
  apply (congrArg WebSocket.sendQueueHead sent).trans
  show (textB 0x90000).nextHead ws.sendQueueHead = _
  rw [flushes.memory.2, head_filled, textB, CText.nextHead, CText.dst, getNextFrameForEnqueue, large_b.fLen]
  decide

theorem fits_hi_behind (flushes : filled.ws.FlushSendQueueBlocking ws) (established : ws.isWsEstablished = true) :
    ((filled.flushTo ws).handOver (some (textB 0x90000))).Fits (.sendTextNoblock (some hi)) := by
  refine ⟨by decide, ?_⟩
  have head : (filled.flushTo ws).ws.sendQueueHead = 0xc0018 := flushes.memory.2.trans head_filled
  have spent : ((filled.flushTo ws).handOver (some (textB 0x90000))).spent = 0xcfff8 := by
    show 0 + (enforceAndWarnTextLimits (some (textB 0x90000))).cost (filled.flushTo ws).ws.sendQueueHead = _
    rw [head, textB, large_b.enforce, CText.cost, CText.skipped, large_b.fLen, large_b.length_serialized]
    decide
  rw [wraps flushes established, spent]
  decide

/-- Several texts, a flush after two of them, and the next one where it wraps around. -/
theorem exists_wrapping : ∃ run : sending.Run, run.length = 6 ∧
    (∀ i < 6, (run.state i).Fits (run.action i)) ∧ (run.state 3).ws.sendQueueHead = 0xc0018 ∧
      (run.state 4).ws.sendQueueHead = 0x90010 ∧ (run.state 6).flushed = [hi, textA 0xc0000, textB 0x90000, hi] := by
  obtain ⟨ws, flushes, ready, -⟩ := ready_filled.flush
  have ready_b := ready.handOver (fits_b flushes)
  obtain ⟨ws', flushes', -, -⟩ := (ready_b.handOver (fits_hi_behind flushes ready.established)).flush
  refine ⟨{
    length := 6
    state := fun i =>
      match i with
      | 0 => empty
      | 1 => empty.handOver (some hi)
      | 2 => filled
      | 3 => filled.flushTo ws
      | 4 => (filled.flushTo ws).handOver (some (textB 0x90000))
      | 5 => ((filled.flushTo ws).handOver (some (textB 0x90000))).handOver (some hi)
      | _ => (((filled.flushTo ws).handOver (some (textB 0x90000))).handOver (some hi)).flushTo ws'
    action := fun i =>
      match i with
      | 0 => .sendTextNoblock (some hi)
      | 1 => .sendTextNoblock (some (textA 0xc0000))
      | 2 => .flushSendQueueBlocking
      | 3 => .sendTextNoblock (some (textB 0x90000))
      | 4 => .sendTextNoblock (some hi)
      | _ => .flushSendQueueBlocking
    start := ⟨rfl, rfl, rfl, rfl, rfl, rfl, rfl⟩
    step := fun i within => ?_ }, rfl, fun i within => ?_, flushes.memory.2.trans head_filled,
      wraps flushes ready.established, ?_⟩
  · match i with
    | 0 => rfl
    | 1 => rfl
    | 2 => exact ⟨ws, flushes, rfl⟩
    | 3 => rfl
    | 4 => rfl
    | 5 => exact ⟨ws', flushes', rfl⟩
  · obtain rfl | rfl | rfl | rfl | rfl | rfl : i = 0 ∨ i = 1 ∨ i = 2 ∨ i = 3 ∨ i = 4 ∨ i = 5 := by omega
    · exact fits_hi
    · exact fits_a
    · exact trivial
    · exact fits_b flushes
    · exact fits_hi_behind flushes ready.established
    · exact trivial
  · show [enforceAndWarnTextLimits (some hi), enforceAndWarnTextLimits (some (textA 0xc0000)),
      enforceAndWarnTextLimits (some (textB 0x90000)), enforceAndWarnTextLimits (some hi)] = _
    have short : enforceAndWarnTextLimits (some hi) = hi := rfl
    rw [textA, textB, large_a.enforce, large_b.enforce, short]

theorem wrapping_lossless : ∃ run : sending.Run, run.length = 6 ∧ (run.state 3).ws.sendQueueHead = 0xc0018 ∧
    (run.state 4).ws.sendQueueHead = 0x90010 ∧ (run.state 6).flushed = [hi, textA 0xc0000, textB 0x90000, hi] ∧
      Lossless run := by
  obtain ⟨run, length, fits, before, behind, texts⟩ := exists_wrapping
  exact ⟨run, length, before, behind, texts, lossless run (by rwa [length])⟩

end Wrapping

end Sending

end LotusKit.Server

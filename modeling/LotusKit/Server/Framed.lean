import LotusKit.Server.SendQueue

/-! What stands in the send queue: frames one behind the other, in one stretch or in two, as
long as all of it fits. A flush takes one frame after the other, sends those of more than
three bytes, and looks at nothing outside of the buffer. -/

namespace LotusKit.Server
open LotusKit.Lib.Memory LotusKit.Lib.Repeat SendFrame

/-- The texts whose frames stand one behind the other, from `a` up to `b`. -/
inductive Framed (mem : Nat → UInt8) : Nat → List CText → Nat → Prop
  | nil {a : Nat} : a % 8 = 0 → Framed mem a [] a
  | cons {a b : Nat} {payload : CText} {rest : List CText} : a % 8 = 0 →
      Holds mem ⟨a, payload.frame⟩ → payload.frame.length < 2 ^ 32 →
      Framed mem (a + alignUp payload.frame.length) rest b → Framed mem a (payload :: rest) b

namespace Framed
variable {mem mem' : Nat → UInt8} {a b : Nat} {payload : CText} {payloads : List CText}

theorem le (framed : Framed mem a payloads b) : a ≤ b := by
  induction framed with
  | nil => exact Nat.le_refl _
  | cons _ _ _ _ ih => exact Nat.le_trans (Nat.le_add_right _ _) ih

theorem aligned (framed : Framed mem a payloads b) : a % 8 = 0 ∧ b % 8 = 0 := by
  induction framed with
  | nil even => exact ⟨even, even⟩
  | cons even _ _ _ ih => exact ⟨even, ih.2⟩

theorem congr (framed : Framed mem a payloads b) (same : ∀ i, a ≤ i → i < b → mem i = mem' i) :
    Framed mem' a payloads b := by
  induction framed with
  | nil even => exact .nil even
  | @cons a b payload rest even holds small tail ih =>
    have upTo := tail.le
    have size := le_alignUp payload.frame.length
    refine .cons even ?_ small (ih fun i above below => same i (by omega) below)
    unfold Holds at holds ⊢
    rw [← holds]
    rw [length_load]
    apply (load_congr fun i above below => same i above ?_).symm
    simp only at below
    omega

/-- One more frame at the end. -/
theorem concat (framed : Framed mem a payloads b) (holds : Holds mem ⟨b, payload.frame⟩)
    (small : payload.frame.length < 2 ^ 32) :
    Framed mem a (payloads ++ [payload]) (b + alignUp payload.frame.length) := by
  induction framed with
  | @nil a even =>
    have even' : (a + alignUp payload.frame.length) % 8 = 0 := by
      have multiple := alignUp_mod payload.frame.length
      omega
    exact .cons even holds small (.nil even')
  | cons even held small' _ ih => exact .cons even held small' (ih holds)

theorem eq_nil (framed : Framed mem a payloads a) : payloads = [] := by
  cases framed with
  | nil => rfl
  | @cons _ _ payload rest even holds small later =>
    have upTo := later.le
    have size := le_alignUp payload.frame.length
    have least := payload.hLen_bounds.1
    have length := payload.length_frame
    omega

end Framed

/-- The bytes of a header that `getSerializedFrameSize` looks at. -/
def headerReads (frame : Nat → UInt8) : List Nat :=
  if (frame 1).toNat < 0x7e then [1]
  else if (frame 1).toNat = 0x7e then [1, 2, 3]
  else if (frame 1).toNat = 0x7f then [1, 6, 7, 8, 9]
  else [1]

theorem headerReads_le {frame : Nat → UInt8} {i : Nat} (member : i ∈ headerReads frame) : i ≤ 9 := by
  have short : ∀ i ∈ [1], i ≤ 9 := by decide
  have medium : ∀ i ∈ [1, 2, 3], i ≤ 9 := by decide
  have large : ∀ i ∈ [1, 6, 7, 8, 9], i ≤ 9 := by decide
  unfold headerReads at member
  split at member
  · exact short i member
  · split at member
    · exact medium i member
    · split at member
      · exact large i member
      · exact short i member

namespace CText
variable (payload : CText)

/-- The whole text, framed. -/
def serialized : List UInt8 := payload.header ++ payload.chars

/-- The bytes between the head and the end of the buffer when the frame goes to its start. -/
def skipped (head : Nat) : Nat :=
  if FitsAtHead head payload.fLen ∨ head = 0 then 0 else SEND_QUEUE_SIZE - head

/-- What a text takes up in the queue. -/
def cost (head : Nat) : Nat := payload.skipped head + alignUp payload.serialized.length

variable {payload}

theorem serialized_eq (small : payload.serialized.length < 2 ^ 32) :
    payload.serialized = payload.frame := by
  rw [serialized, List.length_append] at small
  rw [serialized, frame, copied, pLen, u32, Nat.mod_eq_of_lt (by omega), List.take_length]

end CText

theorem Queueing.Large.length_serialized {n : Nat} {c : UInt8} {some_ : c ≠ 0} (size : Queueing.Large n) :
    (Queueing.long n c some_).serialized.length = 10 + n := by
  rw [CText.serialized, List.length_append, CText.length_header, size.hLen, Queueing.long, List.length_replicate]

namespace WebSocket
variable {s t : WebSocket} {a b : Nat} {payload : CText} {payloads : List CText}

/-- The addresses that one turn of a flush looks at: the header, what is passed to `Send`, and
the first byte again. -/
def TurnReads (s : WebSocket) (i : Nat) : Prop :=
  let frame := fun i => s.memory (s.sendQueueTail + i)
  (∃ j ∈ headerReads frame, i = s.sendQueueTail + j) ∨
    (3 < getSerializedFrameSize frame ∧ s.sendQueueTail ≤ i ∧
      i < s.sendQueueTail + getSerializedFrameSize frame) ∨ i = s.sendQueueTail

/-- A flush looks at the address, at some turn of its loop. -/
inductive FlushReads : WebSocket → Nat → Prop
  | here {s : WebSocket} {i : Nat} : s.sendQueueTail ≠ s.sendQueueHead → s.TurnReads i → FlushReads s i
  | later {s t : WebSocket} {i : Nat} : s.flushBody = .inl t → FlushReads t i → FlushReads s i

theorem FlushReads.turn {i : Nat} (reads : s.FlushReads i) (body : s.flushBody = .inl t) :
    s.TurnReads i ∨ t.FlushReads i := by
  cases reads with
  | here _ turn => exact .inl turn
  | later body' rest =>
    obtain rfl := Sum.inl.inj (body.symm.trans body')
    exact .inr rest

theorem not_flushReads (empty : s.sendQueueTail = s.sendQueueHead) {i : Nat} : ¬s.FlushReads i := by
  rintro (⟨behind, -⟩ | ⟨body, -⟩)
  · exact behind empty
  · rw [flushBody, if_pos empty] at body
    cases body

/-- The frame at the tail left behind, and sent if it is not too short. -/
def leaveFrame (payload : CText) (s : WebSocket) : WebSocket :=
  { s with
    sendQueueTail := alignUp (s.sendQueueTail + payload.frame.length)
    sent := s.sent ++ if 3 < payload.frame.length then [⟨s.sendQueueTail, payload.frame⟩] else [] }

theorem flushBody_frame (behind : s.sendQueueTail ≠ s.sendQueueHead)
    (holds : Holds s.memory ⟨s.sendQueueTail, payload.frame⟩) (small : payload.frame.length < 2 ^ 32)
    (inside : alignUp (s.sendQueueTail + payload.frame.length) < sendQueueBufEnd) :
    s.flushBody = .inl (s.leaveFrame payload) := by
  have first : s.memory s.sendQueueTail = 0x81 := by
    obtain ⟨within, value⟩ := List.getElem?_eq_some_iff.mp payload.head_frame
    exact (holds.get within).trans value
  have read : load s.memory s.sendQueueTail payload.frame.length = payload.frame := holds
  have notZero : ¬(0x81 : UInt8) = 0 := by decide
  rw [flushBody, if_neg behind]
  simp only [CText.getSerializedFrameSize_frame holds small, leaveFrame]
  by_cases sends : 3 < payload.frame.length
  · simp only [if_pos sends, dequeueFrame, send, first, read, if_neg notZero, if_neg (Nat.not_le_of_lt inside)]
  · simp only [if_neg sends, dequeueFrame, first, if_neg notZero, if_neg (Nat.not_le_of_lt inside),
      List.append_nil]

/-- The zeros behind the last frame lead back to the start. -/
theorem flushBody_zeros (behind : s.sendQueueTail ≠ s.sendQueueHead)
    (zero : s.memory s.sendQueueTail = 0) (zero' : s.memory (s.sendQueueTail + 1) = 0) :
    s.flushBody = .inl { s with sendQueueTail := 0 } := by
  rw [flushBody, if_neg behind]
  have size : getSerializedFrameSize (fun i => s.memory (s.sendQueueTail + i)) = 2 := by
    simp only [getSerializedFrameSize, zero']
    rw [if_pos (by decide)]
    rfl
  simp only [size]
  rw [if_neg (by decide), dequeueFrame, if_pos zero]

theorem turnReads_frame (holds : Holds s.memory ⟨s.sendQueueTail, payload.frame⟩)
    (small : payload.frame.length < 2 ^ 32) (even : s.sendQueueTail % 8 = 0)
    (inside : alignUp (s.sendQueueTail + payload.frame.length) < sendQueueBufEnd) {i : Nat}
    (reads : s.TurnReads i) : i < SEND_QUEUE_SIZE := by
  have sizeEq : SEND_QUEUE_SIZE = 0x100000 := rfl
  have endEq : sendQueueBufEnd = 0xfffff := rfl
  have up := le_alignUp (s.sendQueueTail + payload.frame.length)
  have multiple := alignUp_mod (s.sendQueueTail + payload.frame.length)
  have least := payload.hLen_bounds.1
  have length := payload.length_frame
  rcases reads with ⟨j, member, rfl⟩ | ⟨-, -, below⟩ | rfl
  · have near := headerReads_le member
    omega
  · rw [CText.getSerializedFrameSize_frame holds small] at below
    omega
  · omega

theorem turnReads_zeros (zero' : s.memory (s.sendQueueTail + 1) = 0) (even : s.sendQueueTail % 8 = 0)
    (inside : s.sendQueueTail < sendQueueBufEnd) {i : Nat} (reads : s.TurnReads i) : i < SEND_QUEUE_SIZE := by
  have sizeEq : SEND_QUEUE_SIZE = 0x100000 := rfl
  have endEq : sendQueueBufEnd = 0xfffff := rfl
  have least : ((0 : UInt8).toNat) < 0x7e := by decide
  rcases reads with ⟨j, member, rfl⟩ | ⟨sends, -, -⟩ | rfl
  · rw [headerReads, zero', if_pos least] at member
    obtain rfl := List.mem_singleton.mp member
    omega
  · simp only [getSerializedFrameSize, zero', if_pos least] at sends
    exact absurd sends (by decide)
  · omega

/-- The loop passes the frames that stand between the tail and `b`, and goes on there. -/
theorem leaves_of_framed (framed : Framed s.memory a payloads b) (tail : s.sendQueueTail = a)
    (apart : s.sendQueueHead < a ∨ b ≤ s.sendQueueHead) (inside : b < sendQueueBufEnd) :
    ∃ blocks : List (Block UInt8),
      blocks.map Block.bytes = (payloads.map CText.frame).filter (3 < ·.length) ∧
      (∀ t, Leaves flushBody { s with sendQueueTail := b, sent := s.sent ++ blocks } t →
        Leaves flushBody s t) ∧
      ∀ i, s.FlushReads i → i < SEND_QUEUE_SIZE ∨
        FlushReads { s with sendQueueTail := b, sent := s.sent ++ blocks } i := by
  induction payloads generalizing a s with
  | nil =>
    cases framed
    refine ⟨[], rfl, fun t rest => ?_, fun i reads => .inr ?_⟩
    · rwa [List.append_nil, ← tail] at rest
    · rwa [List.append_nil, ← tail]
  | cons payload payloads ih =>
    cases framed with
    | cons even holds small later =>
      have upTo := later.le
      have size := le_alignUp payload.frame.length
      have least := payload.hLen_bounds.1
      have length := payload.length_frame
      have next : alignUp (s.sendQueueTail + payload.frame.length) =
          a + alignUp payload.frame.length := by rw [tail, alignUp_add even]
      rw [← tail] at holds even
      have body := @flushBody_frame s payload (by omega) holds small (by omega)
      have own {i : Nat} := @turnReads_frame s payload holds small even (by omega) i
      have apart' : s.sendQueueHead < a + alignUp payload.frame.length ∨ b ≤ s.sendQueueHead := by
        omega
      obtain ⟨blocks, bytes, go, look⟩ := @ih (s.leaveFrame payload) _ later next apart'
      have sent : (s.leaveFrame payload).sent =
          s.sent ++ if 3 < payload.frame.length then [⟨s.sendQueueTail, payload.frame⟩] else [] := rfl
      rw [sent, List.append_assoc] at go look
      refine ⟨_, ?_, fun t rest => .later body (go t rest), fun i reads => ?_⟩
      · rw [List.map_append, bytes, List.map_cons, List.filter_cons]
        by_cases sends : 3 < payload.frame.length
        · rw [if_pos sends, if_pos (decide_eq_true sends)]
          rfl
        · rw [if_neg sends, if_neg (by simpa using sends)]
          rfl
      · rcases reads.turn body with turn | rest
        · exact .inl (own turn)
        · exact look i rest

/-- What waits in the queue, in one stretch or in two, and how much of it is taken up. -/
inductive Queued (s : WebSocket) : List CText → Nat → Prop
  | straight {payloads : List CText} (framed : Framed s.memory s.sendQueueTail payloads s.sendQueueHead) :
      Queued s payloads (s.sendQueueHead - s.sendQueueTail)
  | wrapped {front back : List CText} {last : Nat}
      (framed : Framed s.memory s.sendQueueTail front last)
      (zeros : s.memory last = 0 ∧ s.memory (last + 1) = 0) (inside : last < sendQueueBufEnd)
      (framed' : Framed s.memory 0 back s.sendQueueHead) (some_ : 0 < s.sendQueueHead)
      (below : s.sendQueueHead < s.sendQueueTail) :
      Queued s (front ++ back) (SEND_QUEUE_SIZE - s.sendQueueTail + s.sendQueueHead)

/-- A flush comes to an end, and only looks into the buffer. -/
theorem Queued.leaves {spent : Nat} (queued : s.Queued payloads spent)
    (inside : s.sendQueueHead < sendQueueBufEnd) :
    (∃ blocks : List (Block UInt8),
      blocks.map Block.bytes = (payloads.map CText.frame).filter (3 < ·.length) ∧
      Leaves flushBody s { s with sendQueueTail := s.sendQueueHead, sent := s.sent ++ blocks }) ∧
      ∀ i, s.FlushReads i → i < SEND_QUEUE_SIZE := by
  cases queued with
  | straight framed =>
    obtain ⟨blocks, bytes, go, look⟩ := leaves_of_framed framed rfl (.inr (Nat.le_refl _)) inside
    refine ⟨⟨blocks, bytes, go _ (.now (if_pos rfl))⟩, fun i reads => ?_⟩
    exact (look i reads).resolve_right (not_flushReads rfl)
  | @wrapped front back last framed zeros within framed' some_ below =>
    have upTo := framed.le
    obtain ⟨blocks, bytes, go, look⟩ := leaves_of_framed framed rfl (.inl below) within
    obtain ⟨blocks', bytes', go', look'⟩ := @leaves_of_framed
      { s with sendQueueTail := 0, sent := s.sent ++ blocks } 0 _ back framed' rfl
      (.inr (Nat.le_refl _)) inside
    have back_ := @flushBody_zeros { s with sendQueueTail := last, sent := s.sent ++ blocks }
      (by simp only; omega) zeros.1 zeros.2
    have own {i : Nat} := @turnReads_zeros { s with sendQueueTail := last, sent := s.sent ++ blocks }
      zeros.2 framed.aligned.2 within i
    refine ⟨⟨blocks ++ blocks', ?_, go _ (.later back_ (go' _ (.now ?_)))⟩, fun i reads => ?_⟩
    · rw [List.map_append, List.map_append, List.filter_append, bytes, bytes']
    · rw [List.append_assoc]
      exact if_pos rfl
    · rcases look i reads with inBuffer | rest
      · exact inBuffer
      · rcases rest.turn back_ with turn | rest'
        · exact own turn
        · exact (look' i rest').resolve_right (not_flushReads rfl)

theorem Queued.head_aligned {spent : Nat} (queued : s.Queued payloads spent) : s.sendQueueHead % 8 = 0 := by
  cases queued with
  | straight framed => exact framed.aligned.2
  | wrapped _ _ _ framed' => exact framed'.aligned.2

section Enqueue
variable {spent : Nat}

/-- What `enqueueText` does with a text that fits into the queue. -/
structure Enqueues (payload : CText) (s t : WebSocket) : Prop where
  tail : t.sendQueueTail = s.sendQueueTail
  head : t.sendQueueHead = payload.dst s.sendQueueHead + alignUp payload.frame.length
  placed : Holds t.memory ⟨payload.dst s.sendQueueHead, payload.frame⟩
  kept : ∀ i, ¬(payload.dst s.sendQueueHead ≤ i ∧
      i < payload.dst s.sendQueueHead + payload.frame.length) →
    FitsAtHead s.sendQueueHead payload.fLen ∨ i < s.sendQueueHead → s.memory i = t.memory i
  zeroed : ¬FitsAtHead s.sendQueueHead payload.fLen → ∀ i, payload.frame.length ≤ i →
    s.sendQueueHead ≤ i → i < sendQueueBufEnd → t.memory i = 0

theorem enqueues (aligned : payload.dst s.sendQueueHead % 8 = 0)
    (inside : payload.dst s.sendQueueHead + alignUp payload.frame.length < sendQueueBufEnd) :
    Enqueues payload s { s with
      memory := storeAll (payload.writes s.sendQueueHead) s.memory
      sendQueueHead := payload.nextHead s.sendQueueHead } := by
  have endEq : sendQueueBufEnd = 0xfffff := rfl
  have size := le_alignUp payload.frame.length
  have fLen := payload.fLen_eq (by omega)
  have next : alignUp (payload.dst s.sendQueueHead + payload.fLen) =
      payload.dst s.sendQueueHead + alignUp payload.frame.length := by
    rw [fLen, alignUp_add aligned]
  refine ⟨rfl, ?_, payload.holds_frame _ _, fun i outside unwiped => ?_,
    fun full i behind above below => payload.storeAll_zeroed full behind above below⟩
  · rw [← next] at inside ⊢
    exact payload.nextHead_of_small inside
  · apply (storeAll_of_not_covers ?_ _).symm
    intro b member covers
    rcases payload.covered_iff.mp ⟨b, member, covers⟩ with inFrame | ⟨full, above, -⟩
    · exact outside inFrame
    · rcases unwiped with fits | below
      · exact full fits
      · omega

/-- The new frame stands behind the last one. -/
theorem Queued.atHead (queued : s.Queued payloads spent) (enqueues : Enqueues payload s t)
    (dst : payload.dst s.sendQueueHead = s.sendQueueHead)
    (room : FitsAtHead s.sendQueueHead payload.fLen) (small : payload.frame.length < 2 ^ 32)
    (fits : spent + alignUp payload.frame.length < SEND_QUEUE_SIZE) :
    t.Queued (payloads ++ [payload]) (spent + alignUp payload.frame.length) := by
  have size := le_alignUp payload.frame.length
  have head := enqueues.head
  have placed := enqueues.placed
  have kept := enqueues.kept
  rw [dst] at head placed kept
  cases queued with
  | straight framed =>
    have upTo := framed.le
    have after := (framed.congr fun i _ below => kept i (by omega) (.inl room)).concat placed small
    rw [← enqueues.tail, ← head] at after
    have spent_ : s.sendQueueHead - s.sendQueueTail + alignUp payload.frame.length =
        t.sendQueueHead - t.sendQueueTail := by
      rw [head, enqueues.tail]
      omega
    rw [spent_]
    exact .straight after
  | @wrapped front back last framed zeros inside framed' some_ below =>
    have upTo := framed.le
    have front_ := framed.congr fun i above _ => kept i (by omega) (.inl room)
    have back_ := (framed'.congr fun i _ below => kept i (by omega) (.inl room)).concat placed small
    have zeros_ : t.memory last = 0 ∧ t.memory (last + 1) = 0 := by
      rw [← kept last (by omega) (.inl room), ← kept (last + 1) (by omega) (.inl room)]
      exact zeros
    rw [← enqueues.tail] at front_
    rw [← head] at back_
    rw [List.append_assoc, Nat.add_assoc, ← head, ← enqueues.tail]
    apply Queued.wrapped front_ zeros_ inside back_
    · omega
    · rw [enqueues.tail]
      omega

/-- The first frame of all, when it is too long to be put at the head. -/
theorem Queued.atStart (queued : s.Queued payloads spent) (enqueues : Enqueues payload s t)
    (head : s.sendQueueHead = 0) (dst : payload.dst s.sendQueueHead = 0)
    (small : payload.frame.length < 2 ^ 32) :
    t.Queued (payloads ++ [payload]) (spent + alignUp payload.frame.length) := by
  have head_ := enqueues.head
  have placed := enqueues.placed
  rw [dst, Nat.zero_add] at head_
  rw [dst] at placed
  cases queued with
  | straight framed =>
    have upTo := framed.le
    have tail : s.sendQueueTail = 0 := by omega
    rw [head, tail] at framed
    rw [framed.eq_nil, head, Nat.zero_sub, Nat.zero_add, List.nil_append]
    have after := Framed.concat (.nil rfl) placed small
    rw [Nat.zero_add, List.nil_append, ← head_, ← tail, ← enqueues.tail] at after
    have spent_ : alignUp payload.frame.length = t.sendQueueHead - t.sendQueueTail := by
      rw [head_, enqueues.tail, tail, Nat.sub_zero]
    rw [spent_]
    exact .straight after
  | wrapped _ _ _ _ some_ => omega

/-- The rest of the buffer is left out, and the new frame stands at the start. -/
theorem Queued.goesRound (queued : s.Queued payloads spent) (enqueues : Enqueues payload s t)
    (inside : s.sendQueueHead + 1 < sendQueueBufEnd)
    (dst : payload.dst s.sendQueueHead = 0) (full : ¬FitsAtHead s.sendQueueHead payload.fLen)
    (small : payload.frame.length < 2 ^ 32)
    (fits : spent + (SEND_QUEUE_SIZE - s.sendQueueHead + alignUp payload.frame.length) < SEND_QUEUE_SIZE) :
    t.Queued (payloads ++ [payload])
      (spent + (SEND_QUEUE_SIZE - s.sendQueueHead + alignUp payload.frame.length)) := by
  have least := payload.hLen_bounds.1
  have length := payload.length_frame
  have size := le_alignUp payload.frame.length
  have sizeEq : SEND_QUEUE_SIZE = 0x100000 := rfl
  have endEq : sendQueueBufEnd = 0xfffff := rfl
  have head := enqueues.head
  have placed := enqueues.placed
  have kept := enqueues.kept
  rw [dst, Nat.zero_add] at head
  rw [dst] at placed kept
  cases queued with
  | straight framed =>
    have upTo := framed.le
    have front := framed.congr fun i above below => kept i (by omega) (.inr below)
    have zeros : t.memory s.sendQueueHead = 0 ∧ t.memory (s.sendQueueHead + 1) = 0 :=
      ⟨enqueues.zeroed full _ (by omega) (Nat.le_refl _) (by omega),
        enqueues.zeroed full _ (by omega) (by omega) inside⟩
    have back := Framed.concat (.nil rfl) placed small
    rw [Nat.zero_add, List.nil_append, ← head] at back
    rw [← enqueues.tail] at front
    have spent_ : s.sendQueueHead - s.sendQueueTail +
        (SEND_QUEUE_SIZE - s.sendQueueHead + alignUp payload.frame.length) =
          SEND_QUEUE_SIZE - t.sendQueueTail + t.sendQueueHead := by
      rw [head, enqueues.tail]
      omega
    rw [spent_]
    apply Queued.wrapped front zeros (by omega) back
    · omega
    · rw [enqueues.tail]
      omega
  | wrapped => omega

/-- One more text waits, when it leaves the queue less than full. -/
theorem Queued.enqueue (queued : s.Queued payloads spent) (inside : s.sendQueueHead < sendQueueBufEnd)
    {payloadSus : Option CText}
    (fits : spent + (enforceAndWarnTextLimits payloadSus).cost s.sendQueueHead < SEND_QUEUE_SIZE) :
    (s.enqueueText payloadSus).Queued (payloads ++ [enforceAndWarnTextLimits payloadSus])
        (spent + (enforceAndWarnTextLimits payloadSus).cost s.sendQueueHead) ∧
      (s.enqueueText payloadSus).sendQueueHead < sendQueueBufEnd := by
  rw [enqueueText]
  generalize enforceAndWarnTextLimits payloadSus = payload at fits ⊢
  have size := le_alignUp payload.serialized.length
  have bound : alignUp payload.serialized.length < SEND_QUEUE_SIZE := by
    unfold CText.cost at fits
    omega
  have sizeEq : SEND_QUEUE_SIZE = 0x100000 := rfl
  have endEq : sendQueueBufEnd = 0xfffff := rfl
  have whole := payload.serialized_eq (by omega)
  rw [CText.cost, whole] at fits ⊢
  rw [whole] at size bound
  have small : payload.frame.length < 2 ^ 32 := by omega
  have fLen := payload.fLen_eq small
  have multiple := alignUp_mod payload.frame.length
  have even := queued.head_aligned
  by_cases room : FitsAtHead s.sendQueueHead payload.fLen
  · have limit : s.sendQueueHead + payload.fLen ≤ sendQueueBufEnd - 0x10 := room
    have above := alignUp_lt payload.frame.length
    have dst := payload.dst_of_fits room
    have enqueues := @enqueues s payload (by rwa [dst]) (by omega)
    rw [CText.skipped, if_pos (.inl room), Nat.zero_add] at fits ⊢
    refine ⟨queued.atHead enqueues dst room small fits, ?_⟩
    rw [enqueues.head, dst]
    omega
  · have dst := payload.dst_of_not_fits room
    have enqueues := @enqueues s payload (by rw [dst]) (by omega)
    refine ⟨?_, by rw [enqueues.head, dst]; omega⟩
    by_cases head : s.sendQueueHead = 0
    · rw [CText.skipped, if_pos (.inr head), Nat.zero_add]
      exact queued.atStart enqueues head dst small
    · rw [CText.skipped, if_neg (not_or.mpr ⟨room, head⟩)] at fits ⊢
      exact queued.goesRound enqueues (by omega) dst room small fits

end Enqueue

end WebSocket

end LotusKit.Server

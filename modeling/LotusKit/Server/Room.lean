import LotusKit.Lib.Transition
import LotusKit.Server.SendQueue

/-! When the queue has room for a text: the frame stays inside of the buffer, and ends
before the first frame that is still to be sent, going round. -/

namespace LotusKit.Server
open LotusKit.Lib.Memory LotusKit.Lib.Transition SendFrame

/-- The queue, and the frames in it that were not passed to `Send` yet. -/
structure Queueing where
  ws : WebSocket
  unsent : List (Block UInt8)

namespace Queueing

/-- Where the text is put, and its frame. -/
def block (payload : CText) (s : Queueing) : Block UInt8 :=
  ⟨payload.dst s.ws.sendQueueHead, payload.frame⟩

def handOver (payloadSus : Option CText) (s : Queueing) : Queueing where
  ws := s.ws.sendTextNoblock payloadSus
  unsent :=
    if s.ws.isWsEstablished then s.unsent ++ [s.block (enforceAndWarnTextLimits payloadSus)] else s.unsent

/-- The flush has called `Send` with what is new in `sent`. -/
def flushTo (ws : WebSocket) (s : Queueing) : Queueing where
  ws := ws
  unsent := s.unsent.filter fun b => b ∉ ws.sent.drop s.ws.sent.length

/-- What a call writes into memory. -/
def writes (s : Queueing) (call : Call) : List (Block UInt8) :=
  match call with
  | .sendTextNoblock payloadSus =>
    if s.ws.isWsEstablished then (enforceAndWarnTextLimits payloadSus).writes s.ws.sendQueueHead else []
  | .flushSendQueueBlocking => []

/-- The way from the head to an address, going round at the end of the buffer. -/
def ahead (head a : Nat) : Nat := if a < head then SEND_QUEUE_SIZE - head + a else a - head

/-- The bytes between the head and the end, when they are left out. -/
def leftOut (payload : CText) (head : Nat) : Nat :=
  if FitsAtHead head payload.fLen then 0 else SEND_QUEUE_SIZE - head

/-- The frame is not too long for the place where it is put, and what it takes up does not
reach round to a frame that is still to be sent. -/
def HasRoomFor (payload : CText) (s : Queueing) : Prop :=
  (s.block payload).end_ ≤ SEND_QUEUE_SIZE ∧
    ∀ b ∈ s.unsent, leftOut payload s.ws.sendQueueHead + payload.frame.length ≤
      ahead s.ws.sendQueueHead b.addr

def HasRoom (s : Queueing) (call : Call) : Prop :=
  match call with
  | .sendTextNoblock payloadSus =>
    s.ws.isWsEstablished = true → s.HasRoomFor (enforceAndWarnTextLimits payloadSus)
  | .flushSendQueueBlocking => True

/-- The call writes inside of the buffer only, and on no byte of a frame still to be sent. -/
def Safe (s : Queueing) (call : Call) : Prop :=
  ∀ i, (∃ b ∈ s.writes call, b.Covers i) → i < SEND_QUEUE_SIZE ∧ ∀ b ∈ s.unsent, ¬b.Covers i

end Queueing

/-- Any calls in any order, also before the websocket is established. -/
def queueing : System Queueing Call where
  Start s := s.ws.sendQueueHead = 0 ∧ s.ws.sendQueueTail = 0 ∧ s.unsent = []
  Step s call t :=
    match call with
    | .sendTextNoblock payloadSus => t = s.handOver payloadSus
    | .flushSendQueueBlocking => ∃ ws, s.ws.FlushSendQueueBlocking ws ∧ t = s.flushTo ws

namespace Queueing
variable {s t : Queueing} {call : Call} {payload : CText}

/-- A frame in the queue: behind the head or ahead of it, and as it was put there. -/
structure Standing (s : Queueing) (b : Block UInt8) : Prop where
  aligned : b.addr % 8 = 0
  some_ : 0 < b.bytes.length
  inside : b.end_ ≤ SEND_QUEUE_SIZE
  apart : b.end_ ≤ s.ws.sendQueueHead ∨ s.ws.sendQueueHead ≤ b.addr
  holds : Holds s.ws.memory b

structure Sound (s : Queueing) : Prop where
  aligned : s.ws.sendQueueHead % 8 = 0
  inside : s.ws.sendQueueHead < sendQueueBufEnd
  standing : ∀ b ∈ s.unsent, s.Standing b

/-- With room for the frame, it is put apart from all that is still to be sent. -/
theorem HasRoomFor.apart (room : s.HasRoomFor payload) (sound : s.Sound) {b : Block UInt8}
    (member : b ∈ s.unsent) :
    (FitsAtHead s.ws.sendQueueHead payload.fLen ∧
        (b.end_ ≤ s.ws.sendQueueHead ∨ s.ws.sendQueueHead + payload.frame.length ≤ b.addr)) ∨
      (¬FitsAtHead s.ws.sendQueueHead payload.fLen ∧ b.end_ ≤ s.ws.sendQueueHead ∧
        payload.frame.length ≤ b.addr) := by
  obtain ⟨aligned, some_, inside, apart, -⟩ := sound.standing b member
  have way := room.2 b member
  have length : b.end_ = b.addr + b.bytes.length := rfl
  unfold leftOut ahead at way
  by_cases fits : FitsAtHead s.ws.sendQueueHead payload.fLen
  · rw [if_pos fits] at way
    refine .inl ⟨fits, ?_⟩
    split at way
    next behind => omega
    next front => omega
  · rw [if_neg fits] at way
    refine .inr ⟨fits, ?_⟩
    split at way
    next behind => omega
    next front => omega

theorem HasRoomFor.safe (room : s.HasRoomFor payload) (sound : s.Sound) {i : Nat}
    (covered : ∃ b ∈ payload.writes s.ws.sendQueueHead, b.Covers i) :
    i < SEND_QUEUE_SIZE ∧ ∀ b ∈ s.unsent, ¬b.Covers i := by
  have sizeEq : SEND_QUEUE_SIZE = 0x100000 := rfl
  have endEq : sendQueueBufEnd = 0xfffff := rfl
  have within : payload.dst s.ws.sendQueueHead + payload.frame.length ≤ SEND_QUEUE_SIZE := room.1
  have place := payload.covered_iff.mp covered
  refine ⟨by omega, fun b member covers => ?_⟩
  obtain ⟨above, below⟩ := covers
  have apart := (sound.standing b member).apart
  rcases room.apart sound member with ⟨fits, apart⟩ | ⟨full, behind, front⟩
  · rw [payload.dst_of_fits fits] at place
    rcases place with inFrame | ⟨full, -⟩
    · omega
    · exact full fits
  · rw [payload.dst_of_not_fits full] at place
    omega

/-- Without room, a byte is written outside or on a frame still to be sent. -/
theorem Sound.room_of_safe (sound : s.Sound)
    (safe : ∀ i, (∃ b ∈ payload.writes s.ws.sendQueueHead, b.Covers i) →
      i < SEND_QUEUE_SIZE ∧ ∀ b ∈ s.unsent, ¬b.Covers i) : s.HasRoomFor payload := by
  have sizeEq : SEND_QUEUE_SIZE = 0x100000 := rfl
  have endEq : sendQueueBufEnd = 0xfffff := rfl
  have some_ : 0 < payload.frame.length := by
    have least := payload.hLen_bounds.1
    rw [payload.length_frame]
    omega
  have within : payload.dst s.ws.sendQueueHead + payload.frame.length ≤ SEND_QUEUE_SIZE := by
    have last := safe (payload.dst s.ws.sendQueueHead + payload.frame.length - 1)
      (payload.covered_iff.mpr (.inl (by omega)))
    omega
  have fLen := payload.fLen_eq (by omega)
  refine ⟨within, fun b member => ?_⟩
  obtain ⟨aligned, long, inside, apart, -⟩ := sound.standing b member
  have length : b.end_ = b.addr + b.bytes.length := rfl
  have first : b.Covers b.addr := ⟨Nat.le_refl _, by omega⟩
  have missed (covered : ∃ c ∈ payload.writes s.ws.sendQueueHead, c.Covers b.addr) : False :=
    (safe b.addr covered).2 b member first
  rw [payload.covered_iff] at missed
  unfold leftOut ahead
  by_cases fits : FitsAtHead s.ws.sendQueueHead payload.fLen
  · have limit : s.ws.sendQueueHead + payload.fLen ≤ sendQueueBufEnd - 0x10 := fits
    rw [payload.dst_of_fits fits] at missed
    rw [if_pos fits]
    split
    next behind => omega
    next front =>
      by_contra short
      exact missed (.inl (by omega))
  · rw [payload.dst_of_not_fits fits] at missed
    rw [if_neg fits]
    split
    next behind =>
      by_contra short
      exact missed (.inl (by omega))
    next front => exact absurd (.inr ⟨fits, by omega, by omega⟩) missed

/-- The head moves up to the next aligned address, or back to the start. -/
theorem nextHead_cases (payload : CText) (head : Nat) :
    payload.nextHead head % 8 = 0 ∧ payload.nextHead head < sendQueueBufEnd ∧
      (payload.nextHead head = 0 ∨
        payload.nextHead head = alignUp (payload.dst head + payload.fLen)) := by
  simp only [CText.nextHead]
  split
  next past => exact ⟨rfl, by decide, .inl rfl⟩
  next below => exact ⟨alignUp_mod _, by omega, .inr rfl⟩

theorem Sound.enqueue (sound : s.Sound) (room : s.HasRoomFor payload) (state : t.unsent = s.unsent ++ [s.block payload])
    (memory : t.ws.memory = storeAll (payload.writes s.ws.sendQueueHead) s.ws.memory)
    (head : t.ws.sendQueueHead = payload.nextHead s.ws.sendQueueHead) : t.Sound := by
  have sizeEq : SEND_QUEUE_SIZE = 0x100000 := rfl
  have endEq : sendQueueBufEnd = 0xfffff := rfl
  have within : payload.dst s.ws.sendQueueHead + payload.frame.length ≤ SEND_QUEUE_SIZE := room.1
  have aligned := sound.aligned
  have fLen := payload.fLen_eq (by omega)
  obtain ⟨aligned', inside', next⟩ := nextHead_cases payload s.ws.sendQueueHead
  rw [← head, fLen] at next
  rw [← head] at aligned' inside'
  refine ⟨aligned', inside', fun b member => ?_⟩
  rw [state] at member
  rcases List.mem_append.mp member with before | new
  · obtain ⟨even, some_, inside, apart, holds⟩ := sound.standing b before
    have length : b.end_ = b.addr + b.bytes.length := rfl
    refine ⟨even, some_, inside, ?_, ?_⟩
    · rcases room.apart sound before with ⟨fits, apart⟩ | ⟨full, behind, front⟩
      · have limit : s.ws.sendQueueHead + payload.fLen ≤ sendQueueBufEnd - 0x10 := fits
        have notPast : t.ws.sendQueueHead = alignUp (s.ws.sendQueueHead + payload.frame.length) := by
          rw [payload.dst_of_fits fits] at next
          have above := alignUp_lt (s.ws.sendQueueHead + payload.frame.length)
          rw [head, CText.nextHead_of_small, payload.dst_of_fits fits, fLen]
          rw [payload.dst_of_fits fits, fLen]
          omega
        have up := le_alignUp (s.ws.sendQueueHead + payload.frame.length)
        rcases apart with behind | front
        · exact .inl (by omega)
        · have most := alignUp_le front even
          exact .inr (by omega)
      · rw [payload.dst_of_not_fits full, Nat.zero_add] at next
        have most := alignUp_le front even
        exact .inr (by omega)
    · rw [memory]
      apply holds.storeAll
      intro c inWrites i covers
      exact (room.safe sound ⟨c, inWrites, covers⟩).2 b before
  · obtain rfl := List.mem_singleton.mp new
    have least := payload.hLen_bounds.1
    have length := payload.length_frame
    have up := le_alignUp (payload.dst s.ws.sendQueueHead + payload.frame.length)
    refine ⟨?_, ?_, room.1, ?_, ?_⟩
    · by_cases fits : FitsAtHead s.ws.sendQueueHead payload.fLen
      · rw [block, payload.dst_of_fits fits]
        exact aligned
      · rw [block, payload.dst_of_not_fits fits]
        exact Nat.zero_mod 8
    · rw [block, length]
      omega
    · unfold block Block.end_
      simp only
      omega
    · rw [memory]
      exact payload.holds_frame _ _

theorem Sound.step (sound : s.Sound) (room : s.HasRoom call) (step : queueing.Step s call t) : t.Sound := by
  cases call with
  | sendTextNoblock payloadSus =>
    obtain rfl : t = s.handOver payloadSus := step
    by_cases established : s.ws.isWsEstablished = true
    · have state : s.handOver payloadSus =
          { ws := s.ws.enqueueText payloadSus
            unsent := s.unsent ++ [s.block (enforceAndWarnTextLimits payloadSus)] } := by
        rw [handOver, WebSocket.sendTextNoblock, if_pos established, if_pos established]
      rw [state]
      exact sound.enqueue (room established) rfl rfl rfl
    · have state : s.handOver payloadSus = s := by
        rw [handOver, WebSocket.sendTextNoblock, if_neg established, if_neg established]
      rwa [state]
  | flushSendQueueBlocking =>
    obtain ⟨ws, flushes, rfl⟩ := step
    obtain ⟨memory, head⟩ := flushes.memory
    refine ⟨by rw [flushTo, head]; exact sound.aligned, by rw [flushTo, head]; exact sound.inside,
      fun b member => ?_⟩
    obtain ⟨aligned, some_, inside, apart, holds⟩ := sound.standing b (List.mem_of_mem_filter member)
    refine ⟨aligned, some_, inside, ?_, ?_⟩
    · rw [flushTo, head]
      exact apart
    · rw [flushTo, memory]
      exact holds

theorem Sound.safe_iff (sound : s.Sound) : s.Safe call ↔ s.HasRoom call := by
  cases call with
  | sendTextNoblock payloadSus =>
    simp only [Safe, writes, HasRoom]
    by_cases established : s.ws.isWsEstablished = true
    · rw [if_pos established]
      exact ⟨fun safe _ => sound.room_of_safe safe, fun room i => (room established).safe sound⟩
    · rw [if_neg established]
      refine ⟨fun _ holds => absurd holds established, fun _ i covered => ?_⟩
      obtain ⟨b, member, -⟩ := covered
      exact absurd member List.not_mem_nil
  | flushSendQueueBlocking =>
    refine ⟨fun _ => trivial, fun _ i covered => ?_⟩
    obtain ⟨b, member, -⟩ := covered
    exact absurd member List.not_mem_nil

theorem sound_reachable (reached : queueing.ReachableUnder HasRoom s) : s.Sound := by
  have atStart (s : Queueing) (start : queueing.Start s) : s.Sound := by
    obtain ⟨head, tail, unsent⟩ := start
    refine ⟨by rw [head], by rw [head]; decide, ?_⟩
    rw [unsent]
    exact List.forall_mem_nil _
  exact System.ReachableUnder.invariant atStart (fun s call t sound room step => sound.step room step) reached

/-- Nothing is written outside of the buffer or over what is still to be sent, and that
stands in memory as it was put there. -/
structure Keeps (run : queueing.Run) : Prop where
  safe : ∀ i < run.length, (run.state i).Safe (run.action i)
  intact : ∀ i ≤ run.length, ∀ b ∈ (run.state i).unsent, Holds (run.state i).ws.memory b
  unchanged : ∀ i < run.length, ∀ b ∈ (run.state i).unsent, ∀ j, b.Covers j →
    (run.state (i + 1)).ws.memory j = (run.state i).ws.memory j

theorem Safe.unchanged (safe : s.Safe call) (step : queueing.Step s call t) {b : Block UInt8}
    (member : b ∈ s.unsent) {j : Nat} (covers : b.Covers j) : t.ws.memory j = s.ws.memory j := by
  cases call with
  | sendTextNoblock payloadSus =>
    obtain rfl : t = s.handOver payloadSus := step
    simp only [Safe, writes] at safe
    simp only [handOver, WebSocket.sendTextNoblock]
    split
    next established =>
      rw [if_pos established] at safe
      apply storeAll_of_not_covers
      intro c inWrites onto
      exact (safe j ⟨c, inWrites, onto⟩).2 b member covers
    next => rfl
  | flushSendQueueBlocking =>
    obtain ⟨ws, flushes, rfl⟩ := step
    exact congrFun flushes.memory.1 j

theorem keeps_iff (run : queueing.Run) :
    Keeps run ↔ ∀ i < run.length, (run.state i).HasRoom (run.action i) := by
  have sound (i : Nat) (within : i ≤ run.length)
      (met : ∀ j < i, (run.state j).HasRoom (run.action j)) : (run.state i).Sound :=
    sound_reachable (run.reachableUnder i within met)
  constructor
  · intro keeps i
    induction i using Nat.strongRecOn with
    | ind i ih =>
      intro within
      have upTo := sound i (Nat.le_of_lt within) fun j before => ih j before (by omega)
      exact upTo.safe_iff.mp (keeps.safe i within)
  · intro room
    have all (i : Nat) (within : i ≤ run.length) : (run.state i).Sound :=
      sound i within fun j before => room j (by omega)
    have safe (i : Nat) (within : i < run.length) : (run.state i).Safe (run.action i) :=
      (all i (Nat.le_of_lt within)).safe_iff.mpr (room i within)
    refine ⟨safe, fun i within b member => ((all i within).standing b member).holds,
      fun i within b member j covers => ?_⟩
    exact (safe i within).unchanged (run.step i within) member covers

/-- Two texts of this size do not fit into the buffer together. -/
def TooLongForTwo (n : Nat) : Prop := 0x80000 ≤ n ∧ n ≤ 0xfff00

theorem TooLongForTwo.large {n : Nat} (size : TooLongForTwo n) : Large n := by
  obtain ⟨least, most⟩ := size
  exact ⟨by omega, most⟩

/-- The second text goes to the start of the buffer too. -/
theorem TooLongForTwo.dst_nextHead {n : Nat} (size : TooLongForTwo n) {c : UInt8} {some_ : c ≠ 0} :
    (long n c some_).dst (alignUp (10 + n)) = 0 := by
  apply CText.dst_of_not_fits
  rw [size.large.fLen]
  obtain ⟨least, most⟩ := size
  have up := le_alignUp (10 + n)
  unfold FitsAtHead sendQueueBufEnd SEND_QUEUE_SIZE
  omega

def empty : Queueing := ⟨⟨true, fun _ => 0, 0, 0, []⟩, []⟩

/-- Two texts in a row. -/
def lap (n : Nat) : queueing.Run where
  length := 2
  state i :=
    match i with
    | 0 => empty
    | 1 => empty.handOver (some (textA n))
    | _ => (empty.handOver (some (textA n))).handOver (some (textB n))
  action i := .sendTextNoblock (some (if i = 0 then textA n else textB n))
  start := ⟨rfl, rfl, rfl⟩
  step i within := by
    match i with
    | 0 => rfl
    | 1 => rfl

theorem not_keeps_lap {n : Nat} (size : TooLongForTwo n) : ¬Keeps (lap n) := by
  intro keeps
  have afterA : ((lap n).state 1).ws.sendQueueHead = alignUp (10 + n) := by
    have sent := @size.large.sendTextNoblock _ 0x61 (by decide) empty.ws rfl
    exact (congrArg WebSocket.sendQueueHead sent).trans size.large.nextHead
  have first : ((lap n).state 1).ws.memory 10 = 0x61 :=
    @size.large.memory _ 0x61 (by decide) empty.ws rfl size.large.dst_zero
  have established : ((lap n).state 1).ws.isWsEstablished = true :=
    congrArg WebSocket.isWsEstablished (@size.large.sendTextNoblock _ 0x61 (by decide) empty.ws rfl)
  have second : ((lap n).state 2).ws.memory 10 = 0x62 := by
    apply @size.large.memory _ 0x62 (by decide) _ established
    rw [afterA]
    exact size.dst_nextHead
  have unsent : empty.block (textA n) ∈ ((lap n).state 1).unsent := by
    have put : ((lap n).state 1).unsent = [empty.block (enforceAndWarnTextLimits (some (textA n)))] := rfl
    rw [put, textA, size.large.enforce]
    exact List.mem_cons_self
  have covers : (empty.block (textA n)).Covers 10 := by
    obtain ⟨inside, -⟩ := List.getElem?_eq_some_iff.mp (@size.large.frame _ 0x61 (by decide))
    have start : (empty.block (textA n)).addr = 0 := @size.large.dst_zero _ 0x61 (by decide)
    unfold Block.Covers Block.end_
    rw [start]
    exact ⟨by decide, by rwa [Nat.zero_add]⟩
  have kept := keeps.unchanged 1 Nat.one_lt_two _ unsent 10 covers
  exact absurd (second.symm.trans (kept.trans first)) (by decide)

theorem lap_not_keeps : ¬Keeps (lap 0x90000) := not_keeps_lap ⟨by decide, by decide⟩

end Queueing

end LotusKit.Server

import LotusKit.Lib.Transition
import LotusKit.Server.Recv

/-! Receiving a stream of messages that arrives bit by bit. A call of `recvNoblockAndProc`
takes turns until nothing is there; each `Recv` returns at most what has arrived. -/

namespace LotusKit.Server
open LotusKit.Lib.Transition

/-- The bytes under way from the client, and what came of those that were received. -/
structure Link where
  stream : List UInt8
  /-- How many of them have arrived. -/
  available : Nat
  inCall : Bool
  overflowed : Bool
  dispatched : List (List UInt8)

inductive Event where
  /-- The next segment arrives. -/
  | arrive (n : Nat)
  | call
  /-- One turn of the loop: what the first `Recv` returns, what arrives while the second
  waits, what that one returns, and what is on the stack where the payload goes. -/
  | turn (headerSize waited payloadSize : Nat) (stack : Nat → UInt8)

instance : Inhabited Event := ⟨.call⟩

namespace Link

/-- The blocking `Recv` is reached, after a header that is taken for one. -/
def ReadsPayload (headerSize : Nat) (s : Link) : Prop :=
  headerSize = 14 ∧ (s.stream.take 14).getD 0 0 = 0x81

instance (headerSize : Nat) (s : Link) : Decidable (s.ReadsPayload headerSize) :=
  inferInstanceAs (Decidable (_ ∧ _))

def request (s : Link) : Nat := (frameHeader (s.stream.take 14)).request

/-- What a blocking `Recv` can return: at most what is there, after waiting when there is
nothing, and at least one byte. -/
structure Answers (headerSize waited payloadSize : Nat) (s : Link) : Prop where
  atMost : payloadSize ≤ s.request
  there : payloadSize ≤ s.available - headerSize + waited
  some_ : 0 < s.request → 0 < payloadSize
  sent : s.available + waited ≤ s.stream.length
  blocked : 0 < waited → s.available = headerSize

theorem answers_iff {headerSize waited payloadSize : Nat} {s : Link} :
    s.Answers headerSize waited payloadSize ↔
      payloadSize ≤ s.request ∧ payloadSize ≤ s.available - headerSize + waited ∧
        (0 < s.request → 0 < payloadSize) ∧ s.available + waited ≤ s.stream.length ∧
        (0 < waited → s.available = headerSize) :=
  ⟨fun ⟨a, b, c, d, e⟩ => ⟨a, b, c, d, e⟩, fun ⟨a, b, c, d, e⟩ => ⟨a, b, c, d, e⟩⟩

instance (headerSize waited payloadSize : Nat) (s : Link) :
    Decidable (s.Answers headerSize waited payloadSize) :=
  decidable_of_iff _ answers_iff.symm

def Enabled (e : Event) (s : Link) : Prop :=
  s.overflowed = false ∧
    match e with
    | .arrive n => s.inCall = false ∧ s.available + n ≤ s.stream.length
    | .call => s.inCall = false
    | .turn headerSize waited payloadSize _ =>
      s.inCall = true ∧ headerSize ≤ 14 ∧ headerSize ≤ s.available ∧
        (headerSize = 0 → s.available = 0) ∧
        (s.ReadsPayload headerSize → s.Answers headerSize waited payloadSize)

instance (e : Event) (s : Link) : Decidable (s.Enabled e) := by
  unfold Enabled
  cases e <;> infer_instance

def turn (headerSize waited payloadSize : Nat) (stack : Nat → UInt8) (s : Link) : Link :=
  match recvFrame s.stream headerSize payloadSize stack with
  | .wouldBlock => { s with inCall := false }
  | .returns stream =>
    { s with stream := stream, available := s.available - headerSize, inCall := false }
  | .dispatches text stream =>
    { s with
      stream := stream
      available := s.available - headerSize + waited - payloadSize
      dispatched := s.dispatched ++ [text] }
  | .overflows => { s with overflowed := true }

def perform (e : Event) (s : Link) : Link :=
  match e with
  | .arrive n => { s with available := s.available + n }
  | .call => { s with inCall := true }
  | .turn headerSize waited payloadSize stack => s.turn headerSize waited payloadSize stack

/-- Nothing has arrived of the messages yet. -/
def sent (messages : List ClientMessage) : Link :=
  ⟨(messages.map ClientMessage.frame).flatten, 0, false, false, []⟩

end Link

/-- The client sends the messages, and the server receives. -/
def receiving (messages : List ClientMessage) : System Link Event where
  Start s := s = .sent messages
  Step s e t := s.Enabled e ∧ t = s.perform e

namespace Link
variable {messages : List ClientMessage} {s t : Link} {e : Event}

/-- Some of the messages have been dispatched, and the stream goes on with the others. -/
structure InOrder (messages : List ClientMessage) (s : Link) : Prop where
  overflowed : s.overflowed = false
  split_ : ∃ done rest, messages = done ++ rest ∧ s.dispatched = done.map ClientMessage.payload ∧
    s.stream = (rest.map ClientMessage.frame).flatten

/-- Each `Recv` returns what it asks for, unless nothing is there, and a payload that is
asked for fits. -/
def Full (s : Link) (e : Event) : Prop :=
  match e with
  | .turn headerSize _ payloadSize _ =>
    headerSize = 0 ∨
      headerSize = 14 ∧ payloadSize = s.request ∧
        8 ≤ (frameHeader (s.stream.take 14)).payloadLen ∧
        (frameHeader (s.stream.take 14)).payloadLen ≠ 2 ^ 32 - 1
  | _ => True

theorem InOrder.cases (inOrder : s.InOrder messages) (some_ : 0 < s.stream.length) :
    ∃ done m rest, messages = done ++ m :: rest ∧ s.dispatched = done.map ClientMessage.payload ∧
      s.stream = m.frame ++ (rest.map ClientMessage.frame).flatten := by
  obtain ⟨done, rest, split_, dispatched, stream⟩ := inOrder.split_
  cases rest with
  | nil =>
    rw [stream] at some_
    exact absurd some_ (Nat.lt_irrefl 0)
  | cons m rest => exact ⟨done, m, rest, split_, dispatched, stream⟩

/-- What is left of the stream is settled by how much has been dispatched. -/
theorem InOrder.stream_eq (inOrder : s.InOrder messages) {done rest : List ClientMessage}
    (split_ : messages = done ++ rest) (same : s.dispatched.length = done.length) :
    s.stream = (rest.map ClientMessage.frame).flatten := by
  obtain ⟨done', rest', split', dispatched, stream⟩ := inOrder.split_
  have lengths : done'.length = done.length := by
    rw [← same, dispatched, List.length_map]
  have both := List.append_inj (split'.symm.trans split_) lengths
  rw [stream, both.2]

/-- What holds between the steps as long as every `Recv` returns what it asks for. -/
structure Sound (messages : List ClientMessage) (s : Link) : Prop where
  inOrder : s.InOrder messages
  sent : s.available ≤ s.stream.length

/-- What the next turn finds when there is something to receive. -/
theorem Sound.next (sound : s.Sound messages) {headerSize : Nat} (within : headerSize ≤ s.available)
    (some_ : headerSize ≠ 0) :
    ∃ done m rest, messages = done ++ m :: rest ∧ s.dispatched = done.map ClientMessage.payload ∧
      s.stream = m.frame ++ (rest.map ClientMessage.frame).flatten := by
  apply sound.inOrder.cases
  have sent := sound.sent
  omega

/-- What the server reads of the length of the next message. -/
theorem payloadLen_of_stream {m : ClientMessage} {rest : List UInt8} (stream : s.stream = m.frame ++ rest)
    (long : 14 ≤ s.stream.length) : (frameHeader (s.stream.take 14)).payloadLen = m.payload.length := by
  rw [stream] at long ⊢
  rw [(m.frameHeader_frame rest long).1]

/-- A turn that receives a whole message. -/
theorem turn_full {m : ClientMessage} {rest : List UInt8} {waited payloadSize : Nat}
    {stack : Nat → UInt8} (stream : s.stream = m.frame ++ rest) (fits : m.Fits)
    (all : payloadSize = s.request) :
    s.turn 14 waited payloadSize stack =
      { s with
        stream := rest
        available := s.available - 14 + waited - payloadSize
        dispatched := s.dispatched ++ [m.payload] } := by
  have asked : payloadSize = m.payload.length - m.excess := by
    rw [all, request, stream, fits.request]
  rw [turn, stream, asked, fits.recvFrame]

theorem Sound.step (sound : s.Sound messages) (full : s.Full e) (can : s.Enabled e) :
    (s.perform e).Sound messages := by
  obtain ⟨inOrder, sent⟩ := sound
  obtain ⟨running, can⟩ := can
  cases e with
  | arrive n => exact ⟨⟨inOrder.overflowed, inOrder.split_⟩, can.2⟩
  | call => exact ⟨⟨inOrder.overflowed, inOrder.split_⟩, sent⟩
  | turn headerSize waited payloadSize stack =>
    obtain ⟨-, -, within, none_, answers⟩ := can
    rcases full with nothing | ⟨rfl, all, long, notMax⟩
    · have blocks : s.perform (.turn headerSize waited payloadSize stack) = { s with inCall := false } := by
        rw [perform, turn, recvFrame, if_pos nothing]
      rw [blocks]
      exact ⟨⟨inOrder.overflowed, inOrder.split_⟩, sent⟩
    · obtain ⟨done, m, rest, split_, dispatched, stream⟩ :=
        Sound.next ⟨inOrder, sent⟩ within (by decide)
      have fits : m.Fits := by
        rw [payloadLen_of_stream stream (by omega)] at long notMax
        exact ⟨long, notMax⟩
      have reads : s.ReadsPayload 14 := ⟨rfl, by rw [stream, m.head_frame]⟩
      have there := answers reads
      rw [perform, turn_full stream fits all]
      refine ⟨⟨inOrder.overflowed, done ++ [m], rest, ?_, ?_, rfl⟩, ?_⟩
      · rw [split_, List.append_assoc, List.singleton_append]
      · rw [dispatched, List.map_append, List.map_singleton]
      · have asked : payloadSize = m.payload.length - m.excess := by
          rw [all, request, stream, fits.request]
        have size := congrArg List.length stream
        have header := m.length_header
        have excess := fits.excess_le
        have arrived := there.sent
        rw [ClientMessage.frame, List.length_append, List.length_append, m.length_masked] at size
        simp only
        omega

/-- A turn with a `Recv` that falls short, or a payload that does not fit, loses the thread. -/
theorem not_inOrder_of_not_full (sound : s.Sound messages) (short : ¬s.Full e) (can : s.Enabled e) :
    ¬(s.perform e).InOrder messages := by
  obtain ⟨running, can⟩ := can
  cases e with
  | arrive n => exact absurd trivial short
  | call => exact absurd trivial short
  | turn headerSize waited payloadSize stack =>
    obtain ⟨-, most, within, -, answers⟩ := can
    have some_ : headerSize ≠ 0 := fun nothing => short (.inl nothing)
    have sent := sound.sent
    obtain ⟨done, m, rest, split_, dispatched, stream⟩ := sound.next within some_
    have count : s.dispatched.length = done.length := by rw [dispatched, List.length_map]
    rw [perform, turn]
    intro inOrder
    by_cases whole : headerSize = 14
    · subst whole
      have reads : s.ReadsPayload 14 := ⟨rfl, by rw [stream, m.head_frame]⟩
      have long : 14 ≤ (m.frame ++ (rest.map ClientMessage.frame).flatten).length := by
        rw [← stream]
        omega
      have answer := answers reads
      by_cases fits : m.Fits
      · have asked : s.request = m.payload.length - m.excess := by
          rw [request, stream, fits.request]
        have few : payloadSize < m.payload.length - m.excess := by
          have atMost := answer.atMost
          have different : payloadSize ≠ s.request := by
            intro all
            apply short
            rw [Full, payloadLen_of_stream stream (by omega)]
            exact .inr ⟨rfl, all, fits⟩
          omega
        obtain ⟨text, received⟩ := fits.recvFrame_short _ (Nat.le_of_lt few) stack
        rw [stream, received] at inOrder
        have position := @InOrder.stream_eq _ _ inOrder (done ++ [m]) rest
          (by rw [split_, List.append_assoc, List.singleton_append])
          (by simp only [List.length_append, count, List.length_singleton])
        -- the payload bytes that were not waited for are still in the stream
        have lengths := congrArg List.length position
        have header := m.length_header
        simp only [List.length_drop] at lengths
        rw [ClientMessage.frame, List.length_append, List.length_append, m.length_masked] at lengths
        omega
      · have pos : 0 < payloadSize := by
          apply answer.some_
          rw [request, stream]
          exact ClientMessage.request_pos _ fits long
        rw [stream, m.recvFrame_overflows _ fits long pos] at inOrder
        cases inOrder.overflowed
    · rw [recvFrame, if_neg some_, if_pos whole] at inOrder
      have position := inOrder.stream_eq split_ count
      have lengths := congrArg List.length position
      rw [List.map_cons, List.flatten_cons, ← stream] at lengths
      simp only [List.length_drop] at lengths
      omega

theorem sound_reachable
    (reached : (receiving messages).ReachableUnder (fun s e => s.Full e) s) : s.Sound messages := by
  have atStart (s : Link) (start : (receiving messages).Start s) : s.Sound messages := by
    obtain rfl : s = .sent messages := start
    exact ⟨⟨rfl, [], messages, rfl, rfl, rfl⟩, Nat.zero_le _⟩
  refine System.ReachableUnder.invariant atStart (fun s e t sound full taken => ?_) reached
  obtain ⟨can, rfl⟩ := taken
  exact sound.step full can

/-- When a call returns and everything has arrived, everything is dispatched. -/
theorem Sound.all_dispatched (sound : s.Sound messages) (full : s.Full e) (can : s.Enabled e)
    (inCall : s.inCall = true) (returns : (s.perform e).inCall = false)
    (all : s.available = s.stream.length) :
    (s.perform e).dispatched = messages.map ClientMessage.payload := by
  obtain ⟨running, enabled⟩ := can
  cases e with
  | arrive n => exact absurd (inCall.symm.trans enabled.1) (by decide)
  | call => exact absurd (inCall.symm.trans enabled) (by decide)
  | turn headerSize waited payloadSize stack =>
    obtain ⟨-, -, within, none_, answers⟩ := enabled
    rcases full with nothing | ⟨rfl, asked, long, notMax⟩
    · have blocks : s.perform (.turn headerSize waited payloadSize stack) = { s with inCall := false } := by
        rw [perform, turn, recvFrame, if_pos nothing]
      obtain ⟨done, rest, split_, dispatched, stream⟩ := sound.inOrder.split_
      have empty : s.stream = [] := List.eq_nil_of_length_eq_zero (all.symm.trans (none_ nothing))
      have beyond : rest = [] := by
        cases rest with
        | nil => rfl
        | cons m rest => cases stream.symm.trans empty
      rw [blocks, split_, beyond, List.append_nil]
      exact dispatched
    · obtain ⟨done, m, rest, split_, dispatched, stream⟩ := sound.next within (by decide)
      have sent := sound.sent
      have fits : m.Fits := by
        rw [payloadLen_of_stream stream (by omega)] at long notMax
        exact ⟨long, notMax⟩
      rw [perform, turn_full stream fits asked] at returns
      exact absurd (inCall.symm.trans returns) (by decide)

/-- With everything there, the call that is under way, or the next one, comes to its end and dispatches
all that is left. -/
def Drains (messages : List ClientMessage) (s : Link) : Prop :=
  ∀ stack, ∃ texts, recvNoblockAndProc stack s.stream = (texts, .returned []) ∧
    s.dispatched ++ texts = messages.map ClientMessage.payload

theorem Sound.drains_iff (sound : s.Sound messages) :
    s.Drains messages ↔ ∀ m ∈ messages.drop s.dispatched.length, m.Fits := by
  obtain ⟨done, rest, rfl, dispatched, stream⟩ := sound.inOrder.split_
  have count : s.dispatched.length = done.length := by rw [dispatched, List.length_map]
  rw [count, List.drop_left, Drains, stream, dispatched]
  constructor
  · intro drains
    obtain ⟨texts, ends, all⟩ := drains fun _ => 0
    rw [List.map_append, List.append_right_inj] at all
    subst all
    exact (recvNoblockAndProc_frames _ rest).mp ends
  · intro fit stack
    exact ⟨rest.map ClientMessage.payload, (recvNoblockAndProc_frames stack rest).mpr fit, List.map_append.symm⟩

/-- Nothing of the stream is lost on the way, in the end all messages are dispatched, and once everything
has arrived no call is stuck. -/
structure Delivers (run : (receiving messages).Run) : Prop where
  inOrder : ∀ i ≤ run.length, (run.state i).InOrder messages
  eventually : ∀ i < run.length, (run.state i).inCall = true → (run.state (i + 1)).inCall = false →
    (run.state i).available = (run.state i).stream.length →
      (run.state (i + 1)).dispatched = messages.map ClientMessage.payload
  drains : ∀ i ≤ run.length, (run.state i).available = (run.state i).stream.length →
    (run.state i).Drains messages

/-- However the stream is cut up, the messages are delivered exactly when every `Recv`
returns all or nothing and every payload fits, those that are still to be received when everything has
arrived included. -/
theorem delivers_iff (run : (receiving messages).Run) :
    Delivers run ↔ (∀ i < run.length, (run.state i).Full (run.action i)) ∧
      ∀ i ≤ run.length, (run.state i).available = (run.state i).stream.length →
        ∀ m ∈ messages.drop (run.state i).dispatched.length, m.Fits := by
  have enough (s : Link) (reached : (receiving messages).ReachableUnder (fun s e => s.Full e) s) :
      s.InOrder messages := (sound_reachable reached).inOrder
  have exact_ := run.holds_iff enough fun s e t reached short taken => by
    obtain ⟨can, rfl⟩ := taken
    exact not_inOrder_of_not_full (sound_reachable reached) short can
  have sound (full : ∀ i < run.length, (run.state i).Full (run.action i)) (i : Nat) (within : i ≤ run.length) :
      (run.state i).Sound messages :=
    sound_reachable (run.reachableUnder i within fun j before => full j (Nat.lt_of_lt_of_le before within))
  constructor
  · intro delivers
    have full := exact_.mp delivers.inOrder
    exact ⟨full, fun i within all => (sound full i within).drains_iff.mp (delivers.drains i within all)⟩
  · rintro ⟨full, fit⟩
    refine ⟨exact_.mpr full, fun i within inCall returns all => ?_, fun i within all => ?_⟩
    · obtain ⟨can, next⟩ := run.step i within
      rw [next] at returns ⊢
      exact (sound full i (Nat.le_of_lt within)).all_dispatched (full i within) can inCall returns all
    · exact (sound full i within).drains_iff.mpr (fit i within all)

theorem step_perform (e : Event) (s : Link) (can : decide (s.Enabled e) = true) :
    (receiving messages).Step s e (s.perform e) := ⟨of_decide_eq_true can, rfl⟩

/-- A text of eight bytes. -/
def eight : ClientMessage where
  payload := List.replicate 8 0x20
  maskKey := [0, 0, 0, 0]
  four := rfl
  nulFree := by decide
  small := by decide

/-- The first 13 bytes of its frame arrive before the last one. -/
def lastByteLate : List Event := [.arrive 13, .call, .turn 13 0 0 fun _ => 0]

def empty : ClientMessage where
  payload := []
  maskKey := [5, 6, 7, 8]
  four := rfl
  nulFree := by decide
  small := by decide

/-- Both frames are there, and the header is read. -/
def bothThere : List Event := [.arrive 14, .call]

/-- The last byte comes too late; or nothing is cut, and the call waits for bytes that no one sends. -/
theorem lastByteLate_not_delivers : (∃ run : (receiving [eight]).Run, ¬Delivers run) ∧
    ∃ run : (receiving [.hi, empty]).Run, (∀ i < run.length, (run.state i).Full (run.action i)) ∧ ¬Delivers run := by
  constructor
  · refine ⟨.replay lastByteLate (.sent [eight]) rfl step_perform (by decide +kernel), fun delivers => ?_⟩
    have position := @InOrder.stream_eq _ _ (delivers.inOrder 3 (by decide)) [] [eight] rfl
      (by decide +kernel)
    exact absurd position (by decide +kernel)
  · refine ⟨.replay bothThere (.sent [.hi, empty]) rfl step_perform (by decide +kernel), ?_, fun delivers => ?_⟩
    · intro i within
      rcases i with _ | _ | i
      · exact trivial
      · exact trivial
      · exact absurd within (by simp [System.Run.replay, bothThere])
    · obtain ⟨texts, ends, all⟩ := delivers.drains 2 (by decide) (by decide +kernel) fun _ => 0
      obtain rfl : texts = _ := all
      have fit := (recvNoblockAndProc_frames _ [.hi, empty]).mp ends
      exact absurd (fit .hi List.mem_cons_self) (by decide)

end Link

end LotusKit.Server

import LotusKit.Server.Base64
import LotusKit.Server.HandshakeKey
import LotusKit.Server.Sha1

/-! The answer to the request that opens a websocket: the key and a magic text are hashed, the hash is
encoded, and a browser takes the answer only if it gets the same text from its own key. -/

namespace LotusKit.Server
open LotusKit.Lib.Memory

section Encode

/-- `char_array_4` from the three bytes of `char_array_3`. -/
def char_array_4 (b0 b1 b2 : UInt8) : List Nat :=
  [(b0.toNat &&& 0xfc) >>> 2,
    ((b0.toNat &&& 0x03) <<< 4) + ((b1.toNat &&& 0xf0) >>> 4),
    ((b1.toNat &&& 0x0f) <<< 2) + ((b2.toNat &&& 0xc0) >>> 6),
    b2.toNat &&& 0x3f]

/-- The loop of `base64_encode`: `char_array_3` fills up and is encoded when it is full. -/
def encodeLoop : List UInt8 → List UInt8 → List Char → List UInt8 × List Char
  | [], char_array_3, ret => (char_array_3, ret)
  | b :: input, char_array_3, ret =>
    match char_array_3 with
    | [b0, b1] => encodeLoop input [] (ret ++ (char_array_4 b0 b1 b).map sextet)
    | _ => encodeLoop input (char_array_3 ++ [b]) ret

/-- What is left in `char_array_3` in the end, filled up with zeros. -/
def encodeRest (char_array_3 : List UInt8) : List Char :=
  if char_array_3 = [] then []
  else
    let b (j : Nat) := char_array_3.getD j 0
    ((char_array_4 (b 0) (b 1) (b 2)).map sextet).take (char_array_3.length + 1) ++
      List.replicate (3 - char_array_3.length) '='

def base64_encode (input : List UInt8) : List Char :=
  let (char_array_3, ret) := encodeLoop input [] []
  ret ++ encodeRest char_array_3

/-- The bit operations of the encoder in terms of arithmetic. -/
theorem byte_bits (b : UInt8) : (b.toNat &&& 0xfc) >>> 2 = b.toNat / 4 ∧ b.toNat &&& 0x03 = b.toNat % 4 ∧
    (b.toNat &&& 0xf0) >>> 4 = b.toNat / 16 ∧ b.toNat &&& 0x0f = b.toNat % 16 ∧
    (b.toNat &&& 0xc0) >>> 6 = b.toNat / 64 ∧ b.toNat &&& 0x3f = b.toNat % 64 := by
  have all : ∀ n < 256, (n &&& 0xfc) >>> 2 = n / 4 ∧ n &&& 0x03 = n % 4 ∧ (n &&& 0xf0) >>> 4 = n / 16 ∧
      n &&& 0x0f = n % 16 ∧ (n &&& 0xc0) >>> 6 = n / 64 ∧ n &&& 0x3f = n % 64 := by
    decide +kernel
  exact all _ b.toNat_lt

theorem char_array_4_eq (b0 b1 b2 : UInt8) : char_array_4 b0 b1 b2 =
    [b0.toNat / 4, b0.toNat % 4 * 16 + b1.toNat / 16, b1.toNat % 16 * 4 + b2.toNat / 64, b2.toNat % 64] := by
  obtain ⟨high0, low0, -, -, -, -⟩ := byte_bits b0
  obtain ⟨-, -, high1, low1, -, -⟩ := byte_bits b1
  obtain ⟨-, -, -, -, high2, low2⟩ := byte_bits b2
  rw [char_array_4, high0, low0, high1, low1, high2, low2, Nat.shiftLeft_eq, Nat.shiftLeft_eq]

/-- The encoder writes what the browser's would, whatever was written before. -/
theorem encodeLoop_eq (bytes : List UInt8) (ret : List Char) :
    (encodeLoop bytes [] ret).2 ++ encodeRest (encodeLoop bytes [] ret).1 = ret ++ btoa bytes := by
  induction bytes using btoa.induct generalizing ret with
  | case1 a b c bytes ih =>
    have group : encodeLoop (a :: b :: c :: bytes) [] ret =
        encodeLoop bytes [] (ret ++ (char_array_4 a b c).map sextet) := rfl
    rw [group, ih, btoa, char_array_4_eq, List.append_assoc]
    rfl
  | case2 a b =>
    have rest : encodeLoop [a, b] [] ret = ([a, b], ret) := rfl
    rw [rest, encodeRest, if_neg (List.cons_ne_nil _ _), btoa]
    simp [char_array_4_eq]
  | case3 a =>
    have rest : encodeLoop [a] [] ret = ([a], ret) := rfl
    rw [rest, encodeRest, if_neg (List.cons_ne_nil _ _), btoa]
    simp [char_array_4_eq]
  | case4 => rfl

/-- The vendored encoder is the browser's, and the vendored decoder undoes it. -/
theorem base64_encode_eq (bytes : List UInt8) :
    base64_encode bytes = btoa bytes ∧ base64_decode (base64_encode bytes) = bytes := by
  have encoded : base64_encode bytes = btoa bytes := encodeLoop_eq bytes []
  exact ⟨encoded, encoded ▸ base64_decode_btoa bytes⟩

theorem sextet_ne_return (n : Nat) : sextet n ≠ '\r' := by
  rw [sextet, List.getD_eq_getElem?_getD]
  intro return_
  cases found : base64_chars[n]? with
  | none =>
    rw [found] at return_
    exact absurd return_ (by decide)
  | some c =>
    rw [found, Option.getD_some] at return_
    have member := List.mem_of_getElem? found
    rw [return_] at member
    exact absurd member (by decide)

/-- The encoded text stands in one line. -/
theorem return_not_mem_btoa (bytes : List UInt8) : '\r' ∉ btoa bytes := by
  induction bytes using btoa.induct with
  | case1 a b c bytes ih => simp [btoa, ih, (sextet_ne_return _).symm]
  | case2 a b => simp [btoa, (sextet_ne_return _).symm]
  | case3 a => simp [btoa, (sextet_ne_return _).symm]
  | case4 => exact List.not_mem_nil

theorem length_btoa (bytes : List UInt8) : (btoa bytes).length = 4 * ((bytes.length + 2) / 3) := by
  induction bytes using btoa.induct with
  | case1 a b c bytes ih =>
    simp only [btoa, List.length_append, List.length_cons, List.length_nil, ih]
    omega
  | case2 a b => simp [btoa]
  | case3 a => simp [btoa]
  | case4 => rfl

end Encode

section Response

/-- The bytes of a string. -/
def bytesOf (text : List Char) : List UInt8 := text.map fun c => UInt8.ofNat c.toNat

/-- `SNPrintf` into `buf`, up to the byte that ends the string. -/
def printed (text : List Char) : List Char := text.take (MAX_HTTP_REQ_HEADER_LEN - 1)

def WS_MAGIC : List Char := "258EAFA5-E914-47DA-95CA-C5AB0DC85B11".toList

def WS_MAGIC_FMT (wsKey : List Char) : List Char := wsKey ++ WS_MAGIC

/-- `WS_RESP_FMT`, up to where the text goes. -/
def WS_RESP : List Char :=
  "HTTP/1.1 101 Switching Protocols\r\nUpgrade: websocket\r\nConnection: Upgrade\r\nSec-WebSocket-Accept: ".toList

def WS_RESP_FMT (acceptKey : List Char) : List Char := WS_RESP ++ acceptKey ++ crlf ++ crlf

/-- What is sent to the client, where `w` is what the hash finds in its buffer. -/
def response (w : List Lib.Sha1.Word) (wsKey : List Char) : List Char :=
  let buf := printed (WS_MAGIC_FMT wsKey)
  let digest := Sha1.calc_ (bytesOf buf) w
  let acceptKey := base64_encode digest
  printed (WS_RESP_FMT acceptKey)

/-- What a request is answered with: a status, and fields with their values. -/
structure Reply where
  status : List Char
  fields : List (List Char × List Char)

namespace Reply

def version : List Char := "HTTP/1.1 ".toList

def separator : List Char := ": ".toList

def field (f : List Char × List Char) : List Char := f.1 ++ separator ++ f.2 ++ crlf

def text (r : Reply) : List Char := version ++ r.status ++ crlf ++ r.fields.flatMap field ++ crlf

/-- Every line ends where it should. -/
def Lines (r : Reply) : Prop := '\r' ∉ r.status ∧ ∀ f ∈ r.fields, '\r' ∉ f.1 ∧ '\r' ∉ f.2

/-- The value of a field that comes once. -/
def value (r : Reply) (name : List Char) : Option (List Char) :=
  match r.fields.filter (·.1 = name) with
  | [f] => some f.2
  | _ => none

end Reply

def switchingProtocols : List Char := "101 Switching Protocols".toList

def upgrade : List Char := "Upgrade".toList

def websocket : List Char := "websocket".toList

def connection : List Char := "Connection".toList

def acceptHeader : List Char := "Sec-WebSocket-Accept".toList

/-- What a client that sent `key` must find in the answer. -/
def accept (key : List Char) : List Char := btoa (Lib.Sha1.sha1 (bytesOf (key ++ WS_MAGIC)))

/-- The text is an answer that opens the websocket for a client that sent `key`. -/
def Opens (key sent : List Char) : Prop :=
  ∃ r : Reply, r.text = sent ∧ r.Lines ∧ r.status.take 3 = ['1', '0', '1'] ∧ r.value upgrade = some websocket ∧
    r.value connection = some upgrade ∧ r.value acceptHeader = some (accept key)

/-- The reply that is sent. -/
def switching (acceptKey : List Char) : Reply where
  status := switchingProtocols
  fields := [(upgrade, websocket), (connection, upgrade), (acceptHeader, acceptKey)]

theorem switching_text (acceptKey : List Char) : (switching acceptKey).text = WS_RESP_FMT acceptKey := by
  have front : WS_RESP = Reply.version ++ (switchingProtocols ++ (crlf ++ (upgrade ++ (Reply.separator ++ (websocket ++
      (crlf ++ (connection ++ (Reply.separator ++ (upgrade ++ (crlf ++ (acceptHeader ++ Reply.separator))))))))))) := by
    decide +kernel
  simp only [WS_RESP_FMT, front, Reply.text, switching, Reply.field, List.flatMap_cons, List.flatMap_nil,
    List.append_nil, List.append_assoc]

theorem switching_value (acceptKey : List Char) : (switching acceptKey).value upgrade = some websocket ∧
    (switching acceptKey).value connection = some upgrade ∧
    (switching acceptKey).value acceptHeader = some acceptKey := by
  have differ : connection ≠ upgrade ∧ acceptHeader ≠ upgrade ∧ acceptHeader ≠ connection := by decide +kernel
  obtain ⟨first, second, third⟩ := differ
  simp [Reply.value, switching, first, second, third, first.symm, second.symm, third.symm]

theorem switching_lines {acceptKey : List Char} (inLine : '\r' ∉ acceptKey) : (switching acceptKey).Lines := by
  have inLines : '\r' ∉ switchingProtocols ∧ ('\r' ∉ upgrade ∧ '\r' ∉ websocket) ∧ '\r' ∉ connection ∧
      '\r' ∉ acceptHeader := by decide +kernel
  obtain ⟨status, ⟨first, second⟩, third, fourth⟩ := inLines
  simp [Reply.Lines, switching, status, first, second, third, fourth, inLine]

theorem length_accept (key : List Char) : (accept key).length = 28 := by
  rw [accept, length_btoa, Lib.Sha1.length_sha1]

/-- A key that is not longer than `wsKey` is answered as the client expects it. -/
theorem opens_response {w : List Lib.Sha1.Word} (size : w.length = 80) {key : List Char} (short : key.length ≤ 32) :
    Opens key (response w key) := by
  have magic : WS_MAGIC.length = 36 := by decide
  have whole : printed (WS_MAGIC_FMT key) = key ++ WS_MAGIC := by
    apply List.take_of_length_le
    rw [WS_MAGIC_FMT, List.length_append, magic]
    unfold MAX_HTTP_REQ_HEADER_LEN
    omega
  have hashed : base64_encode (Sha1.calc_ (bytesOf (key ++ WS_MAGIC)) w) = accept key := by
    rw [(base64_encode_eq _).1, Sha1.calc_eq_sha1 _ size, accept]
    rw [bytesOf, List.length_map, List.length_append, magic]
    omega
  have sent : response w key = (switching (accept key)).text := by
    have text : (WS_RESP_FMT (accept key)).length ≤ MAX_HTTP_REQ_HEADER_LEN - 1 := by
      have front : WS_RESP.length = 97 := by decide +kernel
      rw [WS_RESP_FMT, List.length_append, List.length_append, List.length_append, length_accept, front]
      decide
    rw [response, whole, hashed, switching_text, printed, List.take_of_length_le text]
  have status : switchingProtocols.take 3 = ['1', '0', '1'] := by decide +kernel
  obtain ⟨first, second, third⟩ := switching_value (accept key)
  exact ⟨switching (accept key), sent.symm, switching_lines (return_not_mem_btoa _), status,
    first, second, third⟩

end Response

section Clients

/-- What is in `buf` when a client is waited for. -/
def acceptNote : List Char := "[WebSocket] socket::Accept() for ws client on ws://0.0.0.0:7072...".toList ++ [terminator]

/-- What is in `buf` after a client was closed. -/
def closeNote (routed : Bool) : List Char :=
  (if routed then "[WebSocket] closing client socket: Sec-WebSocket-Key header not found in GET / ^".toList
    else "[WebSocket] closing client socket: no route found for req ^".toList) ++ [terminator]

/-- `listenAndWaitForFrontend` from `Accept` on, for clients that each send a text: how many are
closed, and what is sent to the one after them. -/
def listenAndWaitForFrontend (w : List Lib.Sha1.Word) :
    (Nat → Char) → List (List Char) → Option (Nat × Option (List Char))
  | _, [] => some (0, none)
  | buf, received :: clients => do
    let buf := Block.store ⟨0, acceptNote⟩ buf
    let buf := Block.store ⟨0, received⟩ buf
    match ← answer buf received.length with
    | .closed =>
      let routed ← comparesTo buf route 0
      let (closed, sent) ← listenAndWaitForFrontend w (Block.store ⟨0, closeNote routed⟩ buf) clients
      some (closed + 1, sent)
    | .established wsKey => some (0, some (response w wsKey))

variable {w : List Lib.Sha1.Word} {buf : Nat → Char} {received : List Char}

theorem comparesTo_eq {word : List Char} {i : Nat} (inside : i + word.length ≤ MAX_HTTP_REQ_HEADER_LEN) :
    comparesTo buf word i = some (decide (load buf i word.length = word)) := by
  induction word generalizing i with
  | nil => rfl
  | cons c word ih =>
    rw [List.length_cons] at inside
    have first : load buf i (word.length + 1) = buf i :: load buf (i + 1) word.length := by
      rw [Nat.add_comm, load_add]
      rfl
    have here : readBuf buf i = some (buf i) := if_pos (by omega)
    simp only [comparesTo, here, Option.bind_eq_bind, Option.bind_some, List.length_cons, first, List.cons.injEq]
    by_cases same : buf i = c
    · rw [if_pos same, ih (by omega)]
      simp only [same, true_and]
    · rw [if_neg same]
      simp only [same, false_and, decide_false]

/-- Old bytes of the buffer do not make up for what is missing of the route. -/
theorem comparesTo_other (other : ¬route <+: received) :
    comparesTo (Block.store ⟨0, received⟩ (Block.store ⟨0, acceptNote⟩ buf)) route 0 = some false := by
  rw [comparesTo_eq (by decide)]
  refine congrArg some (decide_eq_false fun routed => other ?_)
  have holds : Holds _ ⟨0, route⟩ := routed
  rcases Nat.lt_or_ge received.length route.length with fewer | enough
  · -- the last character of the route would be one of the note
    have last : Block.store ⟨0, received⟩ (Block.store ⟨0, acceptNote⟩ buf) 5 = ' ' := holds.get (j := 5) (by decide)
    have behind : ¬Block.Covers ⟨0, received⟩ 5 := by
      have size : route.length = 6 := rfl
      unfold Block.Covers Block.end_
      simp only
      omega
    have note : Block.store ⟨0, acceptNote⟩ buf 5 = 'o' :=
      @Block.store_covered _ ⟨0, acceptNote⟩ 5 (by decide +kernel) buf
    rw [Block.store_of_not_covers behind, note] at last
    exact absurd last (by decide)
  · have front := holds_store ⟨0, received⟩ (Block.store ⟨0, acceptNote⟩ buf)
    generalize Block.store ⟨0, received⟩ (Block.store ⟨0, acceptNote⟩ buf) = mem at holds front
    have whole : Holds mem ⟨0, received.take route.length ++ received.drop route.length⟩ := by
      rwa [List.take_append_drop]
    have word := whole.front
    have size : (received.take route.length).length = route.length := List.length_take_of_le enough
    unfold Holds at holds word
    rw [size, holds] at word
    have same : route = received.take route.length := word
    exact same ▸ List.take_prefix _ _

/-- A client that does not ask for the route, or has no key. -/
def Refused (received : List Char) : Prop :=
  ¬route <+: received ∨ ∃ request : Request, request.text = received ∧
    received.length ≤ MAX_HTTP_REQ_HEADER_LEN ∧ request.chosen = []

theorem listen_refused (refused : Refused received) (clients : List (List Char)) :
    ∃ buf', listenAndWaitForFrontend w buf (received :: clients) =
      (listenAndWaitForFrontend w buf' clients).map fun found => (found.1 + 1, found.2) := by
  have routed : ∃ routed, comparesTo (Block.store ⟨0, received⟩ (Block.store ⟨0, acceptNote⟩ buf)) route 0 =
      some routed := ⟨_, comparesTo_eq (by decide)⟩
  have answered : answer (Block.store ⟨0, received⟩ (Block.store ⟨0, acceptNote⟩ buf)) received.length =
      some .closed := by
    rcases refused with other | ⟨request, rfl, inside, none_⟩
    · rw [answer, comparesTo_other other]
      rfl
    · rw [answer_eq request (holds_store _ _) inside, if_pos none_]
  obtain ⟨routed, compared⟩ := routed
  refine ⟨Block.store ⟨0, closeNote routed⟩ (Block.store ⟨0, received⟩ (Block.store ⟨0, acceptNote⟩ buf)), ?_⟩
  rw [listenAndWaitForFrontend]
  simp only [answered, compared, Option.bind_eq_bind, Option.bind_some]
  generalize listenAndWaitForFrontend w _ clients = found
  cases found with
  | none => rfl
  | some found => rfl

theorem listen_established (request : Request) (inside : request.text.length ≤ MAX_HTTP_REQ_HEADER_LEN)
    (some_ : request.chosen ≠ []) (clients : List (List Char)) :
    listenAndWaitForFrontend w buf (request.text :: clients) = some (0, some (response w request.chosen)) := by
  have answered := answer_eq request (holds_store ⟨0, request.text⟩ (Block.store ⟨0, acceptNote⟩ buf)) inside
  rw [if_neg some_] at answered
  rw [listenAndWaitForFrontend]
  simp only [answered, Option.bind_eq_bind, Option.bind_some]

/-- Clients that do not ask for the route or have no key are closed one after the other, and the
first one with a key is sent an answer that opens the websocket for it. -/
theorem listen_opens (size : w.length = 80) {before : List (List Char)} (refused : ∀ received ∈ before, Refused received)
    (request : Request) (inside : request.text.length ≤ MAX_HTTP_REQ_HEADER_LEN) {key : List Char}
    {long later : List (List Char)} (keys : request.keys = long ++ key :: later)
    (cut : ∀ other ∈ long, 30 < other.length) (short : key.length ≤ 30) (some_ : key ≠ [])
    (after : List (List Char)) : ∃ sent, Opens key sent ∧
      listenAndWaitForFrontend w buf (before ++ request.text :: after) = some (before.length, some sent) := by
  have chosen : request.chosen = key := by rw [Request.chosen, keys, chosenAfter_first cut short]
  refine ⟨response w key, opens_response size (by omega), ?_⟩
  induction before generalizing buf with
  | nil => rw [List.nil_append, listen_established request inside (chosen ▸ some_), chosen, List.length_nil]
  | cons received before ih =>
    obtain ⟨first, rest⟩ := List.forall_mem_cons.mp refused
    obtain ⟨buf', goesOn⟩ := @listen_refused w buf received first (before ++ request.text :: after)
    rw [List.cons_append, goesOn, ih rest]
    rfl

theorem listen_usual : ∃ sent, Opens ['k', 'e', 'y'] sent ∧
    listenAndWaitForFrontend (List.replicate 80 7) (fun _ => '?') ([['P', 'O', 'S', 'T'], []] ++ usual.text :: []) =
      some (2, some sent) :=
  @listen_opens _ _ List.length_replicate _ (by
    intro received member
    refine .inl fun starts => ?_
    have small := starts.length_le
    rcases List.mem_pair.mp member with rfl | rfl
    · exact absurd small (by decide)
    · exact absurd small (by decide)) usual (by decide) ['k', 'e', 'y'] [] [] (by decide) nofun (by decide) (by decide) []

end Clients

end LotusKit.Server

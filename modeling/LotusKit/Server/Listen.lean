import LotusKit.Lib.Countdown
import Mathlib.Data.Nat.Count

/-! When the server listens. A request, by the buttons or by a script, is acted on two frames later, and
the next one is taken thirty frames after it at the earliest. -/

namespace LotusKit.Server.Listen
open LotusKit.Lib

def SERVER_LISTEN_COMBO : BitVec 64 :=
  1 <<< 6 ||| 1 <<< 7 ||| 1 <<< 8 ||| 1 <<< 9 ||| 1 <<< 10 ||| 1 <<< 11

structure WebSocket where
  isWsEstablished : Bool
  isInternalReqListen : Bool
  needsInit : Bool
  listenReqDebounce : Nat
  listenNotifDelay : Nat
deriving DecidableEq

/-- What happens between two calls of `calc`, and what buttons are held at the second one. -/
structure Frame where
  wsListen : Bool
  buttons : BitVec 64
  /-- `listenAndWaitForFrontend`, if it is called, does not return early on an error of the socket. -/
  connects : Bool
deriving DecidableEq

inductive Act where
  | nothing
  /-- the text that says that the server is about to block -/
  | notice
  /-- `listenAndWaitForFrontend`, after `init` if need be -/
  | listen (init : Bool)
  | closeActiveSocket
deriving DecidableEq

namespace WebSocket

def start : WebSocket := ⟨false, false, true, 0, 0⟩

variable (s : WebSocket) (frame : Frame)

def wsListen : WebSocket := { s with isInternalReqListen := s.isInternalReqListen || frame.wsListen }

def isRequested : Bool :=
  (frame.buttons == SERVER_LISTEN_COMBO || s.isInternalReqListen) && s.listenReqDebounce == 0

def request : WebSocket :=
  if s.isRequested frame then
    { s with isInternalReqListen := false, listenReqDebounce := 30, listenNotifDelay := 3 }
  else s

/-- `calc` behind the part that receives and sends. -/
def calc_ : WebSocket × Act :=
  let s := s.request frame
  let s := { s with listenReqDebounce := s.listenReqDebounce - 1 }
  if 0 < s.listenNotifDelay then
    let s := { s with listenNotifDelay := s.listenNotifDelay - 1 }
    if s.listenNotifDelay = 0 then
      if s.isWsEstablished then ({ s with isWsEstablished := false }, .closeActiveSocket)
      else ({ s with isWsEstablished := frame.connects, needsInit := false }, .listen s.needsInit)
    else (s, .notice)
  else (s, .nothing)

/-- How long the notice is still shown, with this frame. -/
def delay : Nat := if s.isRequested frame then 3 else s.listenNotifDelay

/-- A frame field by field. -/
theorem calc_fields : s.calc_ frame =
    (⟨if s.delay frame = 1 then !s.isWsEstablished && frame.connects else s.isWsEstablished,
      !s.isRequested frame && s.isInternalReqListen,
      (s.delay frame ≠ 1 || s.isWsEstablished) && s.needsInit,
      (if s.isRequested frame then 30 else s.listenReqDebounce) - 1, s.delay frame - 1⟩,
    match s.delay frame with
    | 0 => .nothing
    | 1 => if s.isWsEstablished then .closeActiveSocket else .listen s.needsInit
    | _ => .notice) := by
  rw [calc_, request, delay]
  cases requested : s.isRequested frame with
  | true => rfl
  | false =>
    rw [if_neg Bool.false_ne_true, if_neg Bool.false_ne_true, if_neg Bool.false_ne_true]
    obtain ⟨established, internal, needs, debounce, notif⟩ := s
    match notif with
    | 0 => cases established <;> rfl
    | 1 => cases established <;> rfl
    | notif + 2 => cases established <;> rfl

end WebSocket

/-- The server before a frame. -/
def before (frames : Nat → Frame) : Nat → WebSocket
  | 0 => .start
  | n + 1 => (((before frames n).wsListen (frames n)).calc_ (frames n)).1

def act (frames : Nat → Frame) (n : Nat) : Act := (((before frames n).wsListen (frames n)).calc_ (frames n)).2

/-- Whether a request is taken in a frame. -/
def taken (frames : Nat → Frame) (n : Nat) : Bool := ((before frames n).wsListen (frames n)).isRequested (frames n)

variable (frames : Nat → Frame)

theorem debounce_succ (n : Nat) : (before frames (n + 1)).listenReqDebounce =
    (if taken frames n then 30 else (before frames n).listenReqDebounce) - 1 := by
  rw [before, WebSocket.calc_fields]
  rfl

theorem delay_succ (n : Nat) : (before frames (n + 1)).listenNotifDelay =
    (if taken frames n then 3 else (before frames n).listenNotifDelay) - 1 := by
  rw [before, WebSocket.calc_fields]
  rfl

/-- For thirty frames from one on in which a request is taken there is no other. -/
theorem debounce_eq_zero_iff (n : Nat) :
    (before frames n).listenReqDebounce = 0 ↔ ∀ m < n, taken frames m → m + 30 ≤ n := by
  have counts := lt_countdown_iff (fun n => (before frames n).listenReqDebounce) (fun n => taken frames n) rfl (debounce_succ frames) n 0
  rw [Nat.add_zero] at counts
  constructor
  · intro zero m earlier taken_then
    by_contra soon
    have still := counts.mpr ⟨m, earlier, taken_then, Nat.not_le.mp soon⟩
    omega
  · intro apart
    by_contra positive
    obtain ⟨m, earlier, taken_then, soon⟩ := counts.mp (Nat.pos_of_ne_zero positive)
    exact absurd (apart m earlier taken_then) (Nat.not_le.mpr soon)

theorem taken_apart {m n : Nat} (earlier : m < n) (taken_then : taken frames m) (taken_now : taken frames n) :
    m + 30 ≤ n := by
  rw [taken, WebSocket.isRequested, Bool.and_eq_true, beq_iff_eq] at taken_now
  exact (debounce_eq_zero_iff frames n).mp taken_now.2 m earlier taken_then

/-- The request of a script is kept until one is taken. -/
theorem internal_iff (n : Nat) : ((before frames n).wsListen (frames n)).isInternalReqListen ↔
    ∃ m ≤ n, (frames m).wsListen ∧ ∀ k, m ≤ k → k < n → ¬taken frames k := by
  induction n with
  | zero =>
    constructor
    · exact fun now => ⟨0, Nat.le_refl 0, now, fun k _ impossible => absurd impossible (Nat.not_lt_zero k)⟩
    · rintro ⟨m, first, now, -⟩
      rwa [Nat.le_zero.mp first] at now
  | succ n ih =>
    have kept : ((before frames (n + 1)).wsListen (frames (n + 1))).isInternalReqListen ↔
        (¬taken frames n ∧ ((before frames n).wsListen (frames n)).isInternalReqListen) ∨ (frames (n + 1)).wsListen := by
      rw [WebSocket.wsListen, before, WebSocket.calc_fields, Bool.or_eq_true, Bool.and_eq_true, Bool.not_eq_true',
        ← Bool.not_eq_true]
      rfl
    rw [kept, ih]
    constructor
    · rintro (⟨not_now, m, before, asked, waited⟩ | asked)
      · refine ⟨m, Nat.le_succ_of_le before, asked, ?_⟩
        intro k from_m earlier
        obtain long_ago | rfl := Nat.lt_succ_iff_lt_or_eq.mp earlier
        · exact waited k from_m long_ago
        · exact not_now
      · exact ⟨n + 1, Nat.le_refl _, asked, fun k from_now earlier => absurd earlier (Nat.not_lt.mpr from_now)⟩
    · rintro ⟨m, before, asked, waited⟩
      obtain earlier | rfl := Nat.le_succ_iff.mp before
      · exact .inl ⟨waited n earlier (Nat.lt_succ_self n), m, earlier, asked,
          fun k from_m earlier => waited k from_m (Nat.lt_succ_of_lt earlier)⟩
      · exact .inr asked

/-- How long the notice is still shown is how long ago the request was taken. -/
theorem delay_eq (n : Nat) : ((before frames n).wsListen (frames n)).delay (frames n) =
    if 2 ≤ n ∧ taken frames (n - 2) then 1
    else if taken frames n then 3 else if 1 ≤ n ∧ taken frames (n - 1) then 2 else 0 := by
  have counts := lt_countdown_iff (fun n => (before frames n).listenNotifDelay) (fun n => taken frames n) rfl
    (delay_succ frames) n
  have delayed : ((before frames n).wsListen (frames n)).delay (frames n) =
      if taken frames n then 3 else (before frames n).listenNotifDelay := rfl
  have of_lt : ∀ d, d < (before frames n).listenNotifDelay → ∃ m < n, taken frames m ∧ n + d < m + 3 :=
    fun d => (counts d).mp
  have to_lt : ∀ d, (∃ m < n, taken frames m ∧ n + d < m + 3) → d < (before frames n).listenNotifDelay :=
    fun d => (counts d).mpr
  rw [delayed]
  generalize (before frames n).listenNotifDelay = notif at of_lt to_lt ⊢
  by_cases due : 2 ≤ n ∧ taken frames (n - 2)
  · have not_now : ¬taken frames n := fun now => absurd (taken_apart frames (by omega) due.2 now) (by omega)
    have positive := to_lt 0 ⟨n - 2, by omega, due.2, by omega⟩
    have at_most : ¬1 < notif := by
      intro more
      obtain ⟨m, earlier, taken_then, soon⟩ := of_lt 1 more
      exact absurd (taken_apart frames (n := m) (by omega) due.2 taken_then) (by omega)
    rw [if_neg not_now, if_pos due]
    omega
  · rw [if_neg due]
    by_cases now : taken frames n
    · rw [if_pos now, if_pos now]
    · rw [if_neg now, if_neg now]
      by_cases last : 1 ≤ n ∧ taken frames (n - 1)
      · have more := to_lt 1 ⟨n - 1, by omega, last.2, by omega⟩
        have at_most : ¬2 < notif := by
          intro most
          obtain ⟨m, earlier, -, soon⟩ := of_lt 2 most
          omega
        rw [if_pos last]
        omega
      · rw [if_neg last]
        by_contra positive
        obtain ⟨m, earlier, taken_then, soon⟩ := of_lt 0 (Nat.pos_of_ne_zero positive)
        obtain rfl | rfl : m = n - 1 ∨ m = n - 2 := by omega
        · exact last ⟨by omega, taken_then⟩
        · by_cases early : 2 ≤ n
          · exact due ⟨early, taken_then⟩
          · exact last ⟨by omega, (by omega : n - 1 = n - 2) ▸ taken_then⟩

/-- How many requests have been acted on before a frame. -/
def acted (n : Nat) : Nat := Nat.count (fun n => taken frames n) (n - 2)

theorem acted_succ (n : Nat) :
    acted frames (n + 1) = acted frames n + if 2 ≤ n ∧ taken frames (n - 2) then 1 else 0 := by
  by_cases late : 2 ≤ n
  · have next : n + 1 - 2 = (n - 2) + 1 := by omega
    rw [acted, acted, next, Nat.count_succ]
    exact congrArg _ (if_congr (by simp [late]) rfl rfl)
  · have none_yet : n + 1 - 2 = n - 2 := by omega
    rw [acted, acted, none_yet, if_neg fun both => late both.1, Nat.add_zero]

theorem delay_one_iff (n : Nat) :
    ((before frames n).wsListen (frames n)).delay (frames n) = 1 ↔ 2 ≤ n ∧ taken frames (n - 2) := by
  rw [delay_eq]
  split_ifs with taken_then
  all_goals simp [taken_then]

theorem established_succ (n : Nat) : (before frames (n + 1)).isWsEstablished =
    if 2 ≤ n ∧ taken frames (n - 2) then !(before frames n).isWsEstablished && (frames n).connects
    else (before frames n).isWsEstablished := by
  rw [before, WebSocket.calc_fields]
  exact if_congr (delay_one_iff frames n) rfl rfl

/-- The network is set up once a request has been acted on, and no sooner. -/
theorem needsInit_eq (n : Nat) : ((before frames n).isWsEstablished → acted frames n ≠ 0) ∧
    (before frames n).needsInit = decide (acted frames n = 0) := by
  induction n with
  | zero => exact ⟨fun established => absurd established Bool.false_ne_true, rfl⟩
  | succ n ih =>
    obtain ⟨opened, needs⟩ := ih
    have due := delay_one_iff frames n
    rw [established_succ, acted_succ]
    rw [before, WebSocket.calc_fields]
    generalize ((before frames n).wsListen (frames n)).delay (frames n) = delay at due ⊢
    have opened' : ((before frames n).wsListen (frames n)).isWsEstablished = (before frames n).isWsEstablished := rfl
    have needs' : ((before frames n).wsListen (frames n)).needsInit = decide (acted frames n = 0) := needs
    rw [opened', needs']
    by_cases acts : delay = 1
    · rw [if_pos (due.mp acts), if_pos (due.mp acts)]
      exact ⟨fun _ => Nat.succ_ne_zero _, by simpa [acts] using opened⟩
    · rw [if_neg fun both => acts (due.mpr both), if_neg fun both => acts (due.mpr both)]
      exact ⟨opened, by simp [acts]⟩

theorem act_eq (n : Nat) : act frames n =
    if 2 ≤ n ∧ taken frames (n - 2) then
      if (before frames n).isWsEstablished then .closeActiveSocket else .listen (acted frames n = 0)
    else if taken frames n ∨ 1 ≤ n ∧ taken frames (n - 1) then .notice
    else .nothing := by
  have needs : ((before frames n).wsListen (frames n)).needsInit = decide (acted frames n = 0) := (needsInit_eq frames n).2
  have acts : act frames n = match ((before frames n).wsListen (frames n)).delay (frames n) with
      | 0 => .nothing
      | 1 => if (before frames n).isWsEstablished then .closeActiveSocket else .listen (acted frames n = 0)
      | _ => .notice := by
    rw [act, WebSocket.calc_fields, needs]
    rfl
  rw [acts, delay_eq]
  by_cases due : 2 ≤ n ∧ taken frames (n - 2)
  · rw [if_pos due, if_pos due]
    rfl
  · rw [if_neg due, if_neg due]
    by_cases now : taken frames n
    · have shown : taken frames n ∨ 1 ≤ n ∧ taken frames (n - 1) := .inl now
      rw [if_pos now, if_pos shown]
      rfl
    · rw [if_neg now]
      by_cases last : 1 ≤ n ∧ taken frames (n - 1)
      · have shown : taken frames n ∨ 1 ≤ n ∧ taken frames (n - 1) := .inr last
        rw [if_pos last, if_pos shown]
        rfl
      · rw [if_neg last, if_neg (not_or.mpr ⟨now, last⟩)]
        rfl

/-- There is a connection as long as none was closed since the server listened for it. -/
theorem established_iff (n : Nat) : (before frames n).isWsEstablished ↔
    ∃ m < n, (∃ init, act frames m = .listen init) ∧ (frames m).connects ∧
      ∀ k, m < k → k < n → act frames k ≠ .closeActiveSocket := by
  induction n with
  | zero => exact iff_of_false Bool.false_ne_true fun ⟨m, before, _⟩ => absurd before (Nat.not_lt_zero m)
  | succ n ih =>
    -- the last frame either acts, or leaves what was before
    have extends_ (kept : act frames n ≠ .closeActiveSocket) (m : Nat) (earlier : m < n)
        (held : ∀ k, m < k → k < n → act frames k ≠ .closeActiveSocket) (k : Nat) (behind : m < k)
        (within : k < n + 1) : act frames k ≠ .closeActiveSocket := by
      obtain long_ago | rfl := Nat.lt_succ_iff_lt_or_eq.mp within
      · exact held k behind long_ago
      · exact kept
    rw [established_succ]
    by_cases due : 2 ≤ n ∧ taken frames (n - 2)
    · have acts := act_eq frames n
      rw [if_pos due] at acts ⊢
      by_cases opened : (before frames n).isWsEstablished = true
      · rw [if_pos opened] at acts
        rw [opened, Bool.not_true, Bool.false_and]
        refine iff_of_false Bool.false_ne_true ?_
        rintro ⟨m, before, ⟨init, listens⟩, -, held⟩
        obtain earlier | rfl := Nat.lt_succ_iff_lt_or_eq.mp before
        · exact held n earlier (Nat.lt_succ_self n) acts
        · exact Act.noConfusion (acts.symm.trans listens)
      · rw [if_neg opened] at acts
        rw [Bool.eq_false_iff.mpr opened, Bool.not_false, Bool.true_and]
        constructor
        · intro connects
          exact ⟨n, Nat.lt_succ_self n, ⟨_, acts⟩, connects, fun k behind within => by omega⟩
        · rintro ⟨m, before, listens, connects, held⟩
          obtain earlier | rfl := Nat.lt_succ_iff_lt_or_eq.mp before
          · refine absurd (ih.mpr ⟨m, earlier, listens, connects, fun k behind within => ?_⟩) opened
            exact held k behind (Nat.lt_succ_of_lt within)
          · exact connects
    · have acts := act_eq frames n
      rw [if_neg due] at acts ⊢
      rw [ih]
      have idle (init : Bool) : act frames n ≠ .closeActiveSocket ∧ act frames n ≠ .listen init := by
        rw [acts]
        split_ifs
        all_goals exact ⟨Act.noConfusion, Act.noConfusion⟩
      constructor
      · rintro ⟨m, earlier, listens, connects, held⟩
        exact ⟨m, Nat.lt_succ_of_lt earlier, listens, connects, extends_ (idle true).1 m earlier held⟩
      · rintro ⟨m, before, ⟨init, listens⟩, connects, held⟩
        obtain earlier | rfl := Nat.lt_succ_iff_lt_or_eq.mp before
        · exact ⟨m, earlier, ⟨init, listens⟩, connects, fun k behind within => held k behind (Nat.lt_succ_of_lt within)⟩
        · exact absurd listens (idle init).2

/-- As long as each attempt connects, the server listens and closes in turns. -/
theorem established_eq {n : Nat} (connect : ∀ m < n, (frames m).connects) :
    (before frames n).isWsEstablished = decide (acted frames n % 2 = 1) := by
  induction n with
  | zero => rfl
  | succ n ih =>
    rw [established_succ, acted_succ, ih fun m earlier => connect m (Nat.lt_succ_of_lt earlier)]
    by_cases due : 2 ≤ n ∧ taken frames (n - 2)
    · rw [if_pos due, if_pos due, connect n (Nat.lt_succ_self n), Bool.and_true, ← decide_not]
      exact decide_eq_decide.mpr (by omega)
    · rw [if_neg due, if_neg due, Nat.add_zero]

/-- When requests are taken, what is done in a frame, when the network is set up, and when there is a connection. -/
theorem listens_on_request (n : Nat) :
    (taken frames n ↔
      ((frames n).buttons = SERVER_LISTEN_COMBO ∨
        ∃ m ≤ n, (frames m).wsListen ∧ ∀ k, m ≤ k → k < n → ¬taken frames k) ∧
      ∀ m < n, taken frames m → m + 30 ≤ n) ∧
    (act frames n =
      if 2 ≤ n ∧ taken frames (n - 2) then
        if (before frames n).isWsEstablished then .closeActiveSocket else .listen (acted frames n = 0)
      else if taken frames n ∨ 1 ≤ n ∧ taken frames (n - 1) then .notice
      else .nothing) ∧
    ((before frames n).isWsEstablished ↔
      ∃ m < n, (∃ init, act frames m = .listen init) ∧ (frames m).connects ∧
        ∀ k, m < k → k < n → act frames k ≠ .closeActiveSocket) ∧
    ((∀ m < n, (frames m).connects) → ((before frames n).isWsEstablished ↔ acted frames n % 2 = 1)) := by
  refine ⟨?_, act_eq frames n, established_iff frames n, fun connect => ?_⟩
  · rw [← internal_iff, ← debounce_eq_zero_iff, taken, WebSocket.isRequested, Bool.and_eq_true, Bool.or_eq_true, beq_iff_eq,
      beq_iff_eq]
    rfl
  · rw [established_eq frames connect, decide_eq_true_iff]

end LotusKit.Server.Listen

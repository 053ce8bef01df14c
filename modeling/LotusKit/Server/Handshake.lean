import LotusKit.Lib.Memory
import LotusKit.Lib.Repeat
import LotusKit.Lib.Scan

/-! The request that opens a websocket, and how `listenAndWaitForFrontend` finds the key in it.
Whatever would touch a byte outside of `buf` or `wsKey` has no result here. -/

namespace LotusKit.Server
open LotusKit.Lib.Memory LotusKit.Lib.Repeat LotusKit.Lib.Scan

def MAX_HTTP_REQ_HEADER_LEN : Nat := 0x800

def crlf : List Char := ['\r', '\n']

def route : List Char := "GET / ".toList

def keyHeader : List Char := "Sec-WebSocket-Key: ".toList

/-- `wsKey` is a string up to here. -/
def terminator : Char := '\x00'

def cString (chars : List Char) : List Char := chars.takeWhile (· ≠ terminator)

section Scan
variable (buf : Nat → Char) (recvSize : Nat)

def readBuf (i : Nat) : Option Char := if i < MAX_HTTP_REQ_HEADER_LEN then some (buf i) else none

def setKey (wsKey : List Char) (i : Nat) (c : Char) : Option (List Char) :=
  if i < wsKey.length then some (wsKey.set i c) else none

/-- One comparison after the other, up to the first one that fails. -/
def comparesTo : List Char → Nat → Option Bool
  | [], _ => some true
  | c :: word, i => do
    let here ← readBuf buf i
    if here = c then comparesTo word (i + 1) else some false

structure KeyCopy where
  buf_i : Nat
  wsKey_i : Nat
  wsKey : List Char

/-- Copies the key up to the end of the line: the index of the scan behind it, and `wsKey`. -/
def copyKey : Loop KeyCopy (Option (Nat × List Char)) where
  body s :=
    match readBuf buf s.buf_i with
    | none => .inr none
    | some c =>
      if c = '\r' then .inr ((setKey s.wsKey s.wsKey_i terminator).map fun wsKey => (recvSize - 1, wsKey))
      else
        match setKey s.wsKey s.wsKey_i c with
        | none => .inr none
        | some wsKey =>
          if s.wsKey_i + 1 < 31 then
            if s.buf_i + 1 < recvSize then .inl ⟨s.buf_i + 1, s.wsKey_i + 1, wsKey⟩
            else .inr (some (s.buf_i + 1, wsKey))
          else .inr (some (s.buf_i, wsKey))
  size s := 31 - s.wsKey_i
  shrinks s t goesOn := by
    split at goesOn
    · cases goesOn
    · split at goesOn
      · cases goesOn
      · split at goesOn
        · cases goesOn
        · split at goesOn
          next below =>
            split at goesOn
            · obtain rfl := Sum.inl.inj goesOn
              simp only
              omega
            · cases goesOn
          next => cases goesOn

/-- The index of the scan goes ahead, or to the end. -/
theorem ahead_copyKey (s : KeyCopy) (result : Nat × List Char) (copied : (copyKey buf recvSize).run s = some result) :
    s.buf_i ≤ result.1 ∨ recvSize ≤ result.1 + 1 := by
  revert result
  apply @Loop.induct _ _ (copyKey buf recvSize)
    (fun s found => ∀ result, found = some result → s.buf_i ≤ result.1 ∨ recvSize ≤ result.1 + 1)
  · rintro s found left result rfl
    simp only [copyKey] at left
    split at left
    · cases left
    · split at left
      · obtain ⟨wsKey, -, rfl⟩ := Option.map_eq_some_iff.mp (Sum.inr.inj left)
        exact .inr (by simp only; omega)
      · split at left
        · cases left
        · split at left
          · split at left
            · cases left
            · obtain rfl := Option.some.inj (Sum.inr.inj left)
              exact .inl (Nat.le_succ _)
          · obtain rfl := Option.some.inj (Sum.inr.inj left)
            exact .inl (Nat.le_refl _)
  · intro s t goesOn ih result copied
    simp only [copyKey] at goesOn
    split at goesOn
    · cases goesOn
    · split at goesOn
      · cases goesOn
      · split at goesOn
        · cases goesOn
        · split at goesOn
          · split at goesOn
            · obtain rfl := Sum.inl.inj goesOn
              exact (ih result copied).imp_left Nat.le_of_succ_le
            · cases goesOn
          · cases goesOn

structure KeyScan where
  buf_i : Nat
  wsKey : List Char

/-- What is done before the index goes ahead: `isNewline` holds only behind a line's end. -/
def scanTurn (s : KeyScan) : Option KeyScan := do
  if ← comparesTo buf crlf s.buf_i then
    if ← comparesTo buf keyHeader (s.buf_i + 2) then
      let (buf_i, wsKey) ← (copyKey buf recvSize).run ⟨s.buf_i + 2 + 19, 0, s.wsKey⟩
      some ⟨buf_i, wsKey⟩
    else some ⟨s.buf_i + 2, s.wsKey⟩
  else some s

theorem ahead_scanTurn {s t : KeyScan} (turn : scanTurn buf recvSize s = some t) :
    s.buf_i ≤ t.buf_i ∨ recvSize ≤ t.buf_i + 1 := by
  simp only [scanTurn, Option.bind_eq_bind, Option.bind_eq_some_iff] at turn
  obtain ⟨newline, -, turn⟩ := turn
  split at turn
  · obtain ⟨header, -, turn⟩ := Option.bind_eq_some_iff.mp turn
    split at turn
    · obtain ⟨result, copied, turn⟩ := Option.bind_eq_some_iff.mp turn
      obtain rfl := Option.some.inj turn
      have ahead := ahead_copyKey buf recvSize _ result copied
      simp only at ahead ⊢
      omega
    · obtain rfl := Option.some.inj turn
      exact .inl (Nat.le_add_right _ _)
  · obtain rfl := Option.some.inj turn
    exact .inl (Nat.le_refl _)

/-- `while(++buf_i < recvSize-2)` -/
def scan : Loop KeyScan (Option (List Char)) where
  body s :=
    match scanTurn buf recvSize s with
    | none => .inr none
    | some t =>
      if t.buf_i + 1 + 2 < recvSize then .inl ⟨t.buf_i + 1, t.wsKey⟩ else .inr (some t.wsKey)
  size s := recvSize - s.buf_i
  shrinks s t goesOn := by
    split at goesOn
    · cases goesOn
    next u turn =>
      have ahead := ahead_scanTurn buf recvSize turn
      split at goesOn
      · obtain rfl := Sum.inl.inj goesOn
        simp only
        omega
      · cases goesOn

/-- What becomes of the client. -/
inductive Answer where
  | closed
  | established (wsKey : List Char)
  deriving DecidableEq

/-- What is done with one `Recv`. -/
def answer : Option Answer := do
  if ← comparesTo buf route 0 then
    let wsKey ← (scan buf recvSize).run ⟨0, List.replicate 33 terminator⟩
    let wsKey ← setKey wsKey 32 terminator
    if wsKey.head? = some terminator then some .closed else some (.established (cString wsKey))
  else some .closed

end Scan

end LotusKit.Server

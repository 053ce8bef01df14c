import LotusKit.Lib.Repeat
import LotusKit.Tas.AsScript

/-! `transpileImpl_nxtas_to_as`. A C string is the list of its characters, without the
terminator. The numbers of `sscanf` are integers: one that is no `int` is undefined. -/

namespace LotusKit.Tas
open LotusKit.Schedule LotusKit.Lib.Scan LotusKit.Lib.RunLength LotusKit.Lib.Repeat

/-- `isspace`. -/
def isSpace (c : Char) : Bool := c = ' ' ∨ (9 ≤ c.toNat ∧ c.toNat ≤ 13)

/-- `%d` of `sscanf`. -/
def scanD (text : List Char) : Option (Int × List Char) :=
  match text.dropWhile isSpace with
  | '+' :: rest => (scanNat rest).map fun scanned => ((scanned.1 : Int), scanned.2)
  | rest => scanInt rest

/-- `sscanf(src, "%d;%d%n", ..)`: what is not reached keeps its value. -/
def sscanfStick (src : List Char) (stick : AnalogStickState) (skipAhead : Nat) : AnalogStickState × Nat :=
  match scanD src with
  | none => (stick, skipAhead)
  | some (x, ';' :: rest) =>
    match scanD rest with
    | none => ({ stick with mX := x }, skipAhead)
    | some (y, rest) => (⟨x, y⟩, src.length - rest.length)
  | some (x, _) => ({ stick with mX := x }, skipAhead)

/-- White space between the parts of a line. -/
def isBlank (c : Char) : Bool := c = ' ' ∨ c = '\t'

/-- White space and frame counters. -/
def isSkipped (c : Char) : Bool := isBlank c ∨ c = '\r' ∨ c = '\n' ∨ c.isDigit

/-- The order in which the keys are compared. -/
def NxTasButton.compared : List NxTasButton :=
  [A, B, X, Y, ZL, ZR, PLUS, MINUS, DLEFT, DUP, DRIGHT, DDOWN, LSTICK, RSTICK, L, R]

/-- The comparisons of one turn: a key with a separator behind it starts the next turn, and
after a key without one the comparisons go on. -/
def compareKeys : List NxTasButton → List Char → BitVec 64 →
    (List Char × BitVec 64) ⊕ (List Char × BitVec 64)
  | [], src, lineButton => .inr (src, lineButton)
  | key :: keys, src, lineButton =>
    match expect key.name src with
    | some (';' :: src) => .inl (src, lineButton ||| key.value)
    | some src => compareKeys keys src (lineButton ||| key.value)
    | none => compareKeys keys src lineButton

theorem length_expect {word text rest : List Char} (found : expect word text = some rest) :
    rest.length ≤ text.length := by
  unfold expect at found
  split at found
  · obtain rfl := Option.some.inj found
    rw [List.length_drop]
    exact Nat.sub_le _ _
  · cases found

theorem compareKeys_shorter {keys : List NxTasButton} {src : List Char} {lineButton : BitVec 64}
    {next : List Char × BitVec 64} (goesOn : compareKeys keys src lineButton = .inl next) :
    next.1.length < src.length := by
  induction keys generalizing src lineButton with
  | nil => cases goesOn
  | cons key keys ih =>
    unfold compareKeys at goesOn
    split at goesOn
    next rest found =>
      have shorter := length_expect found
      obtain rfl := Sum.inl.inj goesOn
      exact shorter
    next rest _ found => exact Nat.lt_of_lt_of_le (ih goesOn) (length_expect found)
    next => exact ih goesOn

/-- The loop over the button flags of a line. -/
def parseButtons : Loop (List Char × BitVec 64) (List Char × BitVec 64) where
  body s :=
    match expect "NONE".toList s.1 with
    | some src => .inr (src, 0)
    | none => compareKeys NxTasButton.compared s.1 s.2
  size s := s.1.length
  shrinks s t goesOn := by
    split at goesOn
    · cases goesOn
    · exact compareKeys_shorter goesOn

/-- The local variables: the accumulators, the offset, the line that is parsed, and the
calls put out so far, each with its `accDuration`. -/
structure Transpiler where
  src : List Char
  acc : PlaybackInput
  accDuration : Nat
  dstn : Nat
  line : PlaybackInput
  skipAheadTmpForScanf : Nat
  emitted : List (PlaybackInput × Nat)

def entrypoint : List Char := "void main()".toList

def entrypoint_open : List Char := " \x7b\n".toList

def entrypoint_close : List Char := "\x7d\n".toList

/-- `SNPrintf(dstTmp, 200, "input(%d, %llu, %d,%d, %d,%d);\n", ..)` -/
def callText (run : PlaybackInput × Nat) : List Char :=
  ("input(".toList ++ showInt (asS32 run.2) ++ argSep ++ Nat.toDigits 10 run.1.buttons.toNat ++ argSep ++
    stickText ',' run.1.lStick ++ argSep ++ stickText ',' run.1.rStick ++ ");\n".toList).take 199

namespace Transpiler

/-- The buttons and both sticks of a line. -/
def parseLine (s : Transpiler) : Transpiler :=
  let (src, lineButton) := parseButtons.run (s.src, 0)
  let src := src.dropWhile isBlank
  let (lStick, skipAhead) := sscanfStick src s.line.lStick s.skipAheadTmpForScanf
  let src := (src.drop skipAhead).dropWhile isBlank
  let (rStick, skipAhead) := sscanfStick src s.line.rStick skipAhead
  { s with
    src := src.drop skipAhead
    line := ⟨lineButton, lStick, rStick⟩
    skipAheadTmpForScanf := skipAhead }

/-- `while (dstn < limit)`, at the end of an iteration. -/
def loopOn (limit : Nat) (s : Transpiler) : Transpiler ⊕ Transpiler :=
  if s.dstn < limit then .inl s else .inr s

/-- A line is complete. -/
def accumulate (limit : Nat) (s : Transpiler) : Transpiler ⊕ Transpiler :=
  let counted := { s with accDuration := u32 (s.accDuration + 1) }
  if s.accDuration = 0 then loopOn limit { counted with acc := s.line }
  else if s.acc ≠ s.line then
    let run := (s.acc, counted.accDuration)
    let dstn := s.dstn + (callText run).length
    if limit ≤ dstn then .inr { counted with dstn := dstn }
    else
      loopOn limit
        { s with
          dstn := dstn
          emitted := s.emitted ++ [run]
          accDuration := 1
          acc := s.line }
  else loopOn limit counted

def body (limit : Nat) (s : Transpiler) : Transpiler ⊕ Transpiler :=
  let s := { s with src := s.src.dropWhile isSkipped }
  if s.src = [] then .inr s else s.parseLine.accumulate limit

def start (src : List Char) : Transpiler where
  src := src
  acc := .zero
  accDuration := 0
  dstn := (entrypoint ++ entrypoint_open).length
  line := .zero
  skipAheadTmpForScanf := 0
  emitted := []

/-- The calls, with the last one when there is room for it. -/
def calls (limit : Nat) (s : Transpiler) : List (PlaybackInput × Nat) :=
  if 0 < s.accDuration then
    if limit ≤ s.dstn + (callText (s.acc, s.accDuration)).length then s.emitted
    else s.emitted ++ [(s.acc, s.accDuration)]
  else s.emitted

end Transpiler

/-- As a `size_t`. -/
def transpileLimit (dstMax : Nat) : Nat := (dstMax + 2 ^ 64 - (entrypoint_close.length + 1)) % 2 ^ 64

/-- `transpileImpl_nxtas_to_as` returns with these calls in `dst`. -/
def Transpiles (src : List Char) (dstMax : Nat) (calls : List (PlaybackInput × Nat)) : Prop :=
  ∃ s, Leaves (Transpiler.body (transpileLimit dstMax)) (.start src) s ∧
    calls = s.calls (transpileLimit dstMax)

/-- What is in `dst` in the end. -/
def transpiledText (calls : List (PlaybackInput × Nat)) : List Char :=
  entrypoint ++ entrypoint_open ++ calls.flatMap callText ++ entrypoint_close

end LotusKit.Tas

import LotusKit.Lib.Bytes
import LotusKit.Lib.Memory
import Mathlib.Data.List.Range

/-! Dumps of memory on the screen. A slot copies memory to a buffer of its own in each frame in which it is
live, and the rows are printed from the buffer. -/

namespace LotusKit.Draw.HexDump
open LotusKit.Lib.Bytes LotusKit.Lib.Memory

inductive HexDumpDataType where
  | U8 | U16 | U32 | U64 | S8 | S16 | S32 | S64 | FLOAT | DOUBLE | TEXT | CODE_AARCH64
  deriving DecidableEq

/-- Other numbers stay possible in the slot, and are formatted as nothing. -/
def HexDumpDataType.ofU32 (dataType : BitVec 32) : Option HexDumpDataType :=
  [U8, U16, U32, U64, S8, S16, S32, S64, FLOAT, DOUBLE, TEXT, CODE_AARCH64][dataType.toNat]?

/-- An argument of `printf`. Floating point numbers are passed as their bits. -/
inductive Arg where
  | pointer (a : Nat)
  | unsigned (v : Nat)
  | signed (v : Int)
  | float (bits : Nat)
  | text (s : List Char)
  deriving DecidableEq

/-- A call of `TextWriter::printf`. -/
structure Line where
  fmt : String
  args : List Arg
  deriving DecidableEq

/-- The number that stands in memory as these bytes, the lowest first. -/
def word : List (BitVec 8) → Nat
  | [] => 0
  | b :: bytes => b.toNat + 256 * word bytes

/-- The elements of `width` bytes of a row. -/
def elements (width : Nat) (src : List (BitVec 8)) : List (List (BitVec 8)) :=
  (List.range (0x10 / width)).map fun k : Nat => slice src (k * width) width

def unsigned (width : Nat) (src : List (BitVec 8)) : List Arg :=
  (elements width src).map fun element => .unsigned (word element)

def signed (width : Nat) (src : List (BitVec 8)) : List Arg :=
  (elements width src).map fun element => .signed (BitVec.ofNat (8 * width) (word element)).toInt

def floats (width : Nat) (src : List (BitVec 8)) : List Arg :=
  (elements width src).map fun element => .float (word element)

/-- `while (lines--)`, with what one line shows. -/
def print (stride : Nat) (line : Nat → List (BitVec 8) → Line) : Nat → Nat → List (BitVec 8) → List Line
  | 0, _, _ => []
  | lines + 1, backingSrc, src =>
    line backingSrc src :: print stride line lines (backingSrc + stride) (src.drop stride)

def printNumbers (hex dec : String) (numbers : List (BitVec 8) → List Arg) (formatHex : Bool) :
    Nat → Nat → List (BitVec 8) → List Line :=
  print 0x10 fun backingSrc src => ⟨if formatHex then hex else dec, .pointer backingSrc :: numbers src⟩

def print_u8 := printNumbers
  "%p | %02x %02x %02x %02x  %02x %02x %02x %02x  %02x %02x %02x %02x  %02x %02x %02x %02x\n"
  "%p | %u %u %u %u  %u %u %u %u  %u %u %u %u  %u %u %u %u\n" (unsigned 1)
def print_u16 := printNumbers
  "%p | %04x %04x  %04x %04x  %04x %04x  %04x %04x\n" "%p | %u %u  %u %u  %u %u  %u %u\n" (unsigned 2)
def print_u32 := printNumbers "%p | %08x %08x %08x %08x\n" "%p | %u %u %u %u\n" (unsigned 4)
def print_u64 := printNumbers "%p | %p %p\n" "%p | %llu %llu\n" (unsigned 8)
def print_s8 := printNumbers
  "%p | %02x %02x %02x %02x  %02x %02x %02x %02x  %02x %02x %02x %02x  %02x %02x %02x %02x\n"
  "%p | %d %d %d %d  %d %d %d %d  %d %d %d %d  %d %d %d %d\n" (signed 1)
def print_s16 := printNumbers
  "%p | %04x %04x  %04x %04x  %04x %04x  %04x %04x\n" "%p | %d %d  %d %d  %d %d  %d %d\n" (signed 2)
def print_s32 := printNumbers "%p | %08x %08x %08x %08x\n" "%p | %d %d %d %d\n" (signed 4)
def print_s64 := printNumbers "%p | %p %p\n" "%p | %lld %lld\n" (signed 8)
def print_float := printNumbers "%p | %f %f %f %f\n" "%p | %f %f %f %f\n" (floats 4)
def print_double := printNumbers "%p | %f %f\n" "%p | %f %f\n" (floats 8)

def isprint (b : BitVec 8) : Bool := 0x20 ≤ b.toNat && b.toNat ≤ 0x7e

def print_text := printNumbers
  "%p | %02x %02x %02x %02x  %02x %02x %02x %02x  %02x %02x %02x %02x  %02x %02x %02x %02x  |%s|\n"
  "%p | %u %u %u %u  %u %u %u %u  %u %u %u %u  %u %u %u %u  |%s|\n"
  fun src => unsigned 1 src ++ [.text (src.map fun b => if isprint b then Char.ofNat b.toNat else '.')]

/-- What `print_code_aarch64` takes from elsewhere. -/
structure Code where
  mainStart : Nat
  u32_to_str_mnemonic : Nat → List Char

def print_code_aarch64 (code : Code) (formatHex : Bool) : Nat → Nat → List (BitVec 8) → List Line :=
  print 4 fun backingSrc src =>
    let lineMainOffset : Int := backingSrc - code.mainStart
    let inst := (src.take 4).map fun b => Arg.unsigned b.toNat
    let mnm := code.u32_to_str_mnemonic (word (src.take 4))
    if 0 ≤ lineMainOffset ∧ lineMainOffset ≤ 0xffffffff ∧ !formatHex then
      ⟨"%s+%08x | %02x %02x %02x %02x  %s\n",
        [.text "main".toList, .signed lineMainOffset] ++ inst ++ [.text mnm]⟩
    else ⟨"%p | %02x %02x %02x %02x  %s\n", [.pointer backingSrc] ++ inst ++ [.text mnm]⟩

def BUF_LEN : Nat := 0x1000

structure HexDumpEntry where
  isCalc : Bool
  isDraw : Bool
  /-- 0: nullptr -/
  dumpSrc : Nat
  buf : List (BitVec 8)
  dumpLen : BitVec 32
  drawLen : BitVec 32
  calcAge : BitVec 32
  label : List Char
  dataType : Option HexDumpDataType
  formatHex : Bool

namespace HexDumpEntry

/-- A slot as it is before anything is assigned. -/
def start : HexDumpEntry := ⟨false, false, 0, List.replicate BUF_LEN 0, 0, 0, 0, [], some .U8, false⟩

variable (slot : HexDumpEntry)

def clear : HexDumpEntry :=
  { slot with
    isCalc := false, isDraw := false, dumpSrc := 0, dumpLen := 0x20, drawLen := 0x20, calcAge := 0
    label := "HexDump".toList, dataType := some .U8, formatHex := true }

def pauseSlot : HexDumpEntry := { slot with isCalc := false }

/-- What `assignSlotAbsolute` is called with. -/
structure Request where
  dumpSrc : Nat
  dumpLen : BitVec 32
  drawLen : BitVec 32
  label : List Char
  dataType : BitVec 32
  formatHex : Bool

/-- `dumpLen` comes without a sign, so it is never below zero and the pointer is taken as it is. -/
def assignSlotAbsolute (r : Request) : HexDumpEntry :=
  let slot :=
    { slot.clear with
      label := r.label, dumpLen := r.dumpLen, drawLen := r.drawLen
      dataType := HexDumpDataType.ofU32 r.dataType, formatHex := r.formatHex }
  if r.dumpSrc = 0 then slot
  else
    { slot with
      isCalc := true
      dumpSrc := if 0 ≤ r.dumpLen.toNat then r.dumpSrc else r.dumpSrc + r.dumpLen.toNat }

/-- How much is copied: the local `dumpLen` and `drawMax` of `calc`. -/
def drawMax : Nat := min slot.dumpLen.toInt.natAbs BUF_LEN

/-- How much is drawn: the local `drawLen` of `calc`. -/
def drawLen_ : Nat := min slot.drawLen.toNat slot.drawMax

/-- The first half of the loop's body in `calc`. -/
def capture (mem : Nat → BitVec 8) : HexDumpEntry :=
  if !slot.isCalc || slot.dumpSrc = 0 then { slot with calcAge := slot.calcAge + 1 }
  else
    { slot with
      buf := overwrite slot.buf 0 (load mem slot.dumpSrc slot.drawMax), calcAge := 0, isDraw := true }

def header (i : Nat) : Line :=
  ⟨"%s[%d](dumpLen=%d, age=%d) %s\r\n",
    [.text slot.label, .signed i, .signed slot.dumpLen.toInt, .signed slot.calcAge.toInt,
      .text (if slot.calcAge = 0 then "[LIVE]".toList else [])]⟩

/-- The branches on `dataType`. -/
def printRow (code : Code) (backingSrc : Nat) (src : List (BitVec 8)) : List Line :=
  match slot.dataType with
  | some .U8 => print_u8 slot.formatHex 1 backingSrc src
  | some .U16 => print_u16 slot.formatHex 1 backingSrc src
  | some .U32 => print_u32 slot.formatHex 1 backingSrc src
  | some .U64 => print_u64 slot.formatHex 1 backingSrc src
  | some .S8 => print_s8 slot.formatHex 1 backingSrc src
  | some .S16 => print_s16 slot.formatHex 1 backingSrc src
  | some .S32 => print_s32 slot.formatHex 1 backingSrc src
  | some .S64 => print_s64 slot.formatHex 1 backingSrc src
  | some .FLOAT => print_float slot.formatHex 1 backingSrc src
  | some .DOUBLE => print_double slot.formatHex 1 backingSrc src
  | some .TEXT => print_text slot.formatHex 1 backingSrc src
  | some .CODE_AARCH64 => print_code_aarch64 code slot.formatHex 4 backingSrc src
  | none => []

/-- The loop over the rows. A row is read from the buffer, as far as the buffer goes. -/
def drawRows (code : Code) (row backingSrc src : Nat) : List Line :=
  if row * 0x10 ≥ slot.drawLen_ then []
  else
    slot.printRow code backingSrc (slice slot.buf src 0x10) ++
      drawRows code (row + 1) (backingSrc + 0x10) (src + 0x10)
termination_by slot.drawLen_ - row * 0x10

/-- The loop's body in `calc`, for slot `i`. The loop goes through the slots one by one, and no slot
looks at another. -/
def calc_ (code : Code) (i : Nat) (mem : Nat → BitVec 8) : HexDumpEntry × List Line :=
  let slot := slot.capture mem
  (slot, if slot.isDraw then slot.header i :: slot.drawRows code 0 slot.dumpSrc 0 else [])

end HexDumpEntry

inductive Act where
  | assignSlotAbsolute (r : HexDumpEntry.Request)
  | pauseSlot
  | clearSlot
  | calc_ (mem : Nat → BitVec 8)

def HexDumpEntry.step (slot : HexDumpEntry) : Act → HexDumpEntry
  | .assignSlotAbsolute r => slot.assignSlotAbsolute r
  | .pauseSlot => slot.pauseSlot
  | .clearSlot => slot.clear
  | .calc_ mem => slot.capture mem

/-- A copy of memory that was made. -/
structure Dump where
  mem : Nat → BitVec 8
  src : Nat
  len : Nat

/-- The byte at `n` is that of the last dump that reaches it. -/
def shown : List Dump → Nat → BitVec 8
  | [], _ => 0
  | dump :: dumps, n => if n < dump.len then dump.mem (dump.src + n) else shown dumps n

/-- A slot as its user sees it: what is watched and the dumps made so far, the last one first. -/
structure Watch where
  asked : Option (Nat × Nat)
  dumps : List Dump
  age : Nat
  drawn : Bool

def Watch.step (w : Watch) : Act → Watch
  | .assignSlotAbsolute r =>
    { w with
      age := 0, drawn := false
      asked := if r.dumpSrc = 0 then none else some (r.dumpSrc, min r.dumpLen.toInt.natAbs BUF_LEN) }
  | .pauseSlot => { w with asked := none }
  | .clearSlot => { w with asked := none, age := 0, drawn := false }
  | .calc_ mem =>
    match w.asked with
    | none => { w with age := w.age + 1 }
    | some (src, len) => ⟨w.asked, ⟨mem, src, len⟩ :: w.dumps, 0, true⟩

def Watch.start : Watch := ⟨none, [], 0, false⟩

/-- The slot is what its user sees. -/
structure Refines (slot : HexDumpEntry) (w : Watch) : Prop where
  length : slot.buf.length = BUF_LEN
  bytes : ∀ n < BUF_LEN, slot.buf[n]? = some (shown w.dumps n)
  asked : w.asked = if slot.isCalc && slot.dumpSrc ≠ 0 then some (slot.dumpSrc, slot.drawMax) else none
  age : slot.calcAge = BitVec.ofNat 32 w.age
  drawn : slot.isDraw = w.drawn
  newest : w.drawn = true →
    ∃ mem earlier, w.dumps = ⟨mem, slot.dumpSrc, slot.drawMax⟩ :: earlier

namespace Refines

theorem start : Refines .start .start where
  length := List.length_replicate
  bytes n inside := by
    rw [HexDumpEntry.start, List.getElem?_replicate, if_pos inside]
    rfl
  asked := rfl
  age := rfl
  drawn := rfl
  newest := by
    intro drawn
    exact absurd drawn Bool.false_ne_true

variable {slot : HexDumpEntry} {w : Watch}

theorem clear (refines : Refines slot w) : Refines slot.clear { w with asked := none, age := 0, drawn := false } where
  length := refines.length
  bytes := refines.bytes
  asked := rfl
  age := rfl
  drawn := rfl
  newest drawn := absurd drawn Bool.false_ne_true

theorem assignSlotAbsolute (refines : Refines slot w) (r : HexDumpEntry.Request) :
    Refines (slot.assignSlotAbsolute r) (w.step (.assignSlotAbsolute r)) := by
  rw [HexDumpEntry.assignSlotAbsolute, Watch.step]
  by_cases null : r.dumpSrc = 0
  · rw [if_pos null, if_pos null]
    exact ⟨refines.length, refines.bytes, rfl, rfl, rfl, fun drawn => absurd drawn Bool.false_ne_true⟩
  · rw [if_neg null, if_neg null, if_pos (Nat.zero_le _)]
    refine ⟨refines.length, refines.bytes, ?_, rfl, rfl, fun drawn => absurd drawn Bool.false_ne_true⟩
    simp only [null, decide_true, Bool.and_self, ne_eq, not_false_eq_true, if_true]
    rfl

theorem pauseSlot (refines : Refines slot w) : Refines slot.pauseSlot { w with asked := none } where
  length := refines.length
  bytes := refines.bytes
  asked := rfl
  age := refines.age
  drawn := refines.drawn
  newest := refines.newest

theorem capture (refines : Refines slot w) (mem : Nat → BitVec 8) : Refines (slot.capture mem) (w.step (.calc_ mem)) := by
  have asked := refines.asked
  have test : (!slot.isCalc || decide (slot.dumpSrc = 0)) = !(slot.isCalc && decide (slot.dumpSrc ≠ 0)) := by
    rw [Bool.not_and, decide_not, Bool.not_not]
  rw [HexDumpEntry.capture, Watch.step, test]
  cases live : slot.isCalc && decide (slot.dumpSrc ≠ 0) with
  | false =>
    rw [live, if_neg Bool.false_ne_true] at asked
    rw [Bool.not_false, if_pos rfl, asked]
    refine ⟨refines.length, refines.bytes, ?_, ?_, refines.drawn, refines.newest⟩
    · rw [live, if_neg Bool.false_ne_true]
    · rw [BitVec.ofNat_add, ← refines.age]
      rfl
  | true =>
    rw [live, if_pos rfl] at asked
    rw [Bool.not_true, if_neg Bool.false_ne_true, asked]
    have within : 0 + (load mem slot.dumpSrc slot.drawMax).length ≤ slot.buf.length := by
      rw [length_load, refines.length, Nat.zero_add]
      exact Nat.min_le_right _ _
    refine ⟨(length_overwrite within).trans refines.length, fun n inside => ?_, ?_, rfl, rfl, fun _ => ?_⟩
    · dsimp only
      rw [getElem?_overwrite within, length_load, Nat.zero_add, Nat.sub_zero, shown]
      by_cases copied : n < slot.drawMax
      · rw [if_pos ⟨Nat.zero_le n, copied⟩, if_pos copied, load, List.getElem?_map, List.getElem?_range copied]
        rfl
      · rw [if_neg fun part => copied part.2, if_neg copied]
        exact refines.bytes n inside
    · rw [live, if_pos rfl]
      rfl
    · exact ⟨mem, w.dumps, rfl⟩

theorem step (refines : Refines slot w) (act : Act) : Refines (slot.step act) (w.step act) := by
  cases act with
  | assignSlotAbsolute r => exact refines.assignSlotAbsolute r
  | pauseSlot => exact refines.pauseSlot
  | clearSlot => exact refines.clear
  | calc_ mem => exact refines.capture mem

theorem run (acts : List Act) (refines : Refines slot w) :
    Refines (acts.foldl HexDumpEntry.step slot) (acts.foldl Watch.step w) := by
  induction acts generalizing slot w with
  | nil => exact refines
  | cons act acts ih => exact ih (refines.step act)

theorem slice_buf (refines : Refines slot w) {row : Nat} (inside : row * 0x10 + 0x10 ≤ BUF_LEN) :
    slice slot.buf (row * 0x10) 0x10 = (List.range 0x10).map fun j : Nat => shown w.dumps (row * 0x10 + j) := by
  apply List.ext_getElem?
  intro j
  rw [getElem?_slice, List.getElem?_map]
  by_cases here : j < 0x10
  · rw [if_pos here, List.getElem?_range here, refines.bytes _ (by omega)]
    rfl
  · rw [if_neg here, List.getElem?_eq_none (by rw [List.length_range]; omega)]
    rfl

end Refines

namespace HexDumpEntry
variable (slot : HexDumpEntry)

theorem drawLen_le : slot.drawLen_ ≤ BUF_LEN := by
  have short : slot.drawMax ≤ BUF_LEN := Nat.min_le_right _ _
  have shorter : slot.drawLen_ ≤ slot.drawMax := Nat.min_le_right _ _
  omega

/-- How many rows are drawn. -/
def rows : Nat := (slot.drawLen_ + 0xf) / 0x10

theorem drawRows_eq (code : Code) (row backingSrc src : Nat) :
    slot.drawRows code row backingSrc src =
      (List.range (slot.rows - row)).flatMap fun k : Nat =>
        slot.printRow code (backingSrc + k * 0x10) (slice slot.buf (src + k * 0x10) 0x10) := by
  fun_induction drawRows slot code row backingSrc src with
  | case1 row backingSrc src done =>
    have none_left : slot.rows - row = 0 := by
      unfold rows
      omega
    rw [none_left]
    rfl
  | case2 row backingSrc src more ih =>
    have one_more : slot.rows - row = (slot.rows - (row + 1)) + 1 := by
      unfold rows
      omega
    rw [ih, one_more, List.range_succ_eq_map, List.flatMap_cons, List.flatMap_map]
    simp only [Nat.zero_mul, Nat.add_zero, Nat.succ_mul, Nat.add_assoc, Nat.add_comm 0x10]

end HexDumpEntry

/-- The lines of a frame, by what the user sees. -/
theorem Refines.lines {slot : HexDumpEntry} {w : Watch} (refines : Refines slot w) (code : Code) (i : Nat)
    (mem : Nat → BitVec 8) :
    (slot.calc_ code i mem).2 =
      if (w.step (.calc_ mem)).drawn then
        (slot.capture mem).header i :: (List.range (slot.capture mem).rows).flatMap fun row : Nat =>
          (slot.capture mem).printRow code ((slot.capture mem).dumpSrc + row * 0x10)
            ((List.range 0x10).map fun j : Nat => shown (w.step (.calc_ mem)).dumps (row * 0x10 + j))
      else [] := by
  have refines := refines.capture mem
  rw [HexDumpEntry.calc_, refines.drawn, HexDumpEntry.drawRows_eq]
  split
  case isFalse => rfl
  case isTrue =>
    refine congrArg _ (List.flatMap_congr fun row here => ?_)
    have before : row < HexDumpEntry.rows _ := List.mem_range.mp here
    have inside : row * 0x10 + 0x10 ≤ BUF_LEN := by
      have short := (slot.capture mem).drawLen_le
      unfold HexDumpEntry.rows at before
      unfold BUF_LEN at short ⊢
      omega
    rw [Nat.zero_add, refines.slice_buf inside]

/-- What a frame shows after any calls and frames: as many rows as cover what is asked for, each of them
with its address and sixteen bytes as they stood in memory when they were last copied. -/
theorem dump_shows (acts : List Act) (code : Code) (i : Nat) (mem : Nat → BitVec 8) :
    let slot := (acts.foldl HexDumpEntry.step .start).capture mem
    let w := (acts.foldl Watch.step .start).step (.calc_ mem)
    ((acts.foldl HexDumpEntry.step .start).calc_ code i mem).2 =
        (if w.drawn then
          slot.header i :: (List.range slot.rows).flatMap fun row : Nat =>
            slot.printRow code (slot.dumpSrc + row * 0x10)
              ((List.range 0x10).map fun j : Nat => shown w.dumps (row * 0x10 + j))
        else []) ∧
      (w.drawn = true → ∃ mem earlier, w.dumps = ⟨mem, slot.dumpSrc, slot.drawMax⟩ :: earlier) ∧
      slot.calcAge = BitVec.ofNat 32 w.age := by
  have refines := Refines.run acts Refines.start
  exact ⟨refines.lines code i mem, (refines.capture mem).newest, (refines.capture mem).age⟩

end LotusKit.Draw.HexDump

import LotusKit.Lib.Bytes
import LotusKit.Lib.Hex
import Mathlib.Data.List.OfFn
import Mathlib.Data.List.TakeWhile

/-! Stack traces: the chain of frames, and what is printed of each return address. One record is read anew for
each address, over what the address before has left in it, and one buffer is printed to and passed on. -/

namespace LotusKit.Trace
open LotusKit.Lib LotusKit.Lib.Bytes

/-- A frame record, as it is found at a frame pointer. -/
structure Frame where
  m_Fp : BitVec 64
  m_Lr : BitVec 64

/-- The loop of `StackTrace::unwind`, with the number of turns that are left. -/
def unwind (mem : BitVec 64 → Frame) : Nat → BitVec 64 → List (BitVec 64)
  | 0, _ => []
  | turns + 1, current_fp =>
    if current_fp = 0 ∨ current_fp % 8 ≠ 0 then []
    else if (mem current_fp).m_Lr = 0 ∨ (mem current_fp).m_Lr % 4 ≠ 0 then []
    else (mem current_fp).m_Lr :: unwind mem turns (mem current_fp).m_Fp

def max_trace_size : Nat := 0x20

structure ModuleInfo where
  m_Start : BitVec 64
  /-- `GetModuleName().data()`, up to the end of the text there -/
  name : List Char
  deriving DecidableEq

structure Symbol where
  sym_name : List Char
  sym_size : BitVec 64
  sym_addr : BitVec 64
  ends : '\x00' ∉ sym_name

/-- What is loaded, as it is asked for an address. -/
structure Loaded where
  TryGetModule : BitVec 64 → Option ModuleInfo
  GetNearestExportedSymbol : BitVec 64 → Symbol

def NAME_LEN : Nat := 0x80

structure AddressInfo where
  addr : BitVec 64
  module_name : Option (List Char)
  offset : BitVec 64
  nearest_sym_name : List Char
  nearest_sym_offset : BitVec 64

/-- A line of the trace, as it is passed to `SNPrintf`. -/
inductive Line where
  | plain (addr : BitVec 64)
  | inModule (addr : BitVec 64) (module_name : List Char) (offset : BitVec 64)
  | symbol (addr : BitVec 64) (module_name : List Char) (offset : BitVec 64) (nearest_sym_name : List Char)
      (nearest_sym_offset : BitVec 64)

/-- `%08x`, which takes 32 bits. -/
def percentX (n : BitVec 64) : List Char := Hex.padded 8 (n.setWidth 32).toNat

/-- What the formats say, before the end of the line. `percentP` is how `%p` writes a pointer. -/
def Line.body (percentP : BitVec 64 → List Char) : Line → List Char
  | plain addr => percentP addr
  | inModule addr module_name offset =>
    percentP addr ++ (" => ".toList ++ (module_name ++ '+' :: percentX offset))
  | symbol addr module_name offset nearest_sym_name nearest_sym_offset =>
    percentP addr ++ (" => ".toList ++ (module_name ++ '+' :: (percentX offset ++ (" [".toList ++
      (nearest_sym_name ++ '+' :: (percentX nearest_sym_offset ++ [']']))))))

def Line.text (percentP : BitVec 64 → List Char) (l : Line) : List Char := l.body percentP ++ ['\n']

/-- `sizeof(buf)` -/
def BUF_LEN : Nat := 200

/-- What is in `buf`, up to its end. -/
def SNPrintf (text : List Char) : List Char := text.take (BUF_LEN - 1)

/-- What becomes of a line. A draw list takes it for a format. -/
inductive Output where
  | svcOutputDebugString (text : List Char)
  | printf (drawList_i : Int) (fmt : List Char)
  deriving DecidableEq

/-- Without a draw list, the last character is left out. -/
def output (drawList_i : Int) (buf : List Char) : Output :=
  if drawList_i = -1 then .svcOutputDebugString (buf.take (buf.length - 1)) else .printf drawList_i buf

namespace AddressInfo

/-- The array is not set, and holds what is there. -/
def start (garbage : Fin NAME_LEN → Char) : AddressInfo := ⟨0, none, 0, List.ofFn garbage, 0⟩

variable (loaded : Loaded) (info : AddressInfo)

/-- The end of the name is put behind it. Behind the array lies the lowest byte of `nearest_sym_offset`. -/
def terminate (copy_size : Nat) : AddressInfo :=
  if copy_size < NAME_LEN then { info with nearest_sym_name := info.nearest_sym_name.set copy_size '\x00' }
  else { info with nearest_sym_offset := info.nearest_sym_offset &&& ~~~0xff }

def read (addr : BitVec 64) : AddressInfo :=
  match loaded.TryGetModule addr with
  | none => { info with addr := addr, module_name := none }
  | some m =>
    let info := { info with addr := addr, offset := addr - m.m_Start, module_name := some m.name }
    let sym := loaded.GetNearestExportedSymbol addr
    if sym.sym_addr = 0 ∨ addr - sym.sym_addr ≥ sym.sym_size then
      { info with nearest_sym_name := info.nearest_sym_name.set 0 '\x00', nearest_sym_offset := 0 }
    else
      let copy_size := min sym.sym_name.length NAME_LEN
      { info with
        nearest_sym_offset := addr - sym.sym_addr
        nearest_sym_name := overwrite info.nearest_sym_name 0 (sym.sym_name.take copy_size) }.terminate copy_size

def line : Line :=
  match info.module_name with
  | none => .plain info.addr
  | some module_name =>
    if info.nearest_sym_name.head? = some '\x00' then .inModule info.addr module_name info.offset
    else
      .symbol info.addr module_name info.offset (info.nearest_sym_name.takeWhile (· ≠ '\x00'))
        info.nearest_sym_offset

end AddressInfo

/-- The loop of `StackTrace::print`. -/
def printLines (percentP : BitVec 64 → List Char) (loaded : Loaded) (drawList_i : Int) :
    AddressInfo → List (BitVec 64) → List Output
  | _, [] => []
  | info, addr :: trace =>
    output drawList_i (SNPrintf ((info.read loaded addr).line.text percentP)) ::
      printLines percentP loaded drawList_i (info.read loaded addr) trace

def print (percentP : BitVec 64 → List Char) (loaded : Loaded) (drawList_i : Int) (info : AddressInfo)
    (trace : List (BitVec 64)) : List Output :=
  output drawList_i (SNPrintf "stack trace:\n".toList) :: printLines percentP loaded drawList_i info trace

/-- What is printed of an address, if `name` and `offset` say what becomes of a symbol. -/
def lineOf (loaded : Loaded) (name : List Char → List Char) (offset : List Char → BitVec 64 → BitVec 64)
    (addr : BitVec 64) : Line :=
  match loaded.TryGetModule addr with
  | none => .plain addr
  | some m =>
    let sym := loaded.GetNearestExportedSymbol addr
    if (sym.sym_addr = 0 ∨ addr - sym.sym_addr ≥ sym.sym_size) ∨ sym.sym_name = [] then
      .inModule addr m.name (addr - m.m_Start)
    else
      .symbol addr m.name (addr - m.m_Start) (name sym.sym_name) (offset sym.sym_name (addr - sym.sym_addr))

/-- The symbol and the distance from it, as they are. -/
def told (loaded : Loaded) : BitVec 64 → Line := lineOf loaded id fun _ offset => offset

/-- As much of the name as fits, and the distance with its lowest byte lost where nothing is left for the end. -/
def cut (loaded : Loaded) : BitVec 64 → Line :=
  lineOf loaded (List.take NAME_LEN) fun name offset =>
    if name.length < NAME_LEN then offset else offset &&& ~~~0xff

theorem takeWhile_text {text rest : List Char} (ends : '\x00' ∉ text) :
    (text ++ '\x00' :: rest).takeWhile (· ≠ '\x00') = text := by
  have inside : ∀ c ∈ text, decide (c ≠ '\x00') = true := fun c here =>
    decide_eq_true fun same => ends (same ▸ here)
  rw [List.takeWhile_append_of_pos inside, List.takeWhile_cons_of_neg (by decide), List.append_nil]

theorem overwrite_front (array text : List Char) : overwrite array 0 text = text ++ array.drop text.length := by
  rw [overwrite, List.take_zero, List.nil_append, Nat.zero_add]

/-- A name that leaves room is followed by its end. -/
theorem copied_short {array name : List Char} (sized : array.length = NAME_LEN) (short : name.length < NAME_LEN) :
    ∃ rest, (overwrite array 0 (name.take name.length)).set name.length '\x00' = name ++ '\x00' :: rest := by
  have room : name.length < (name ++ array.drop name.length).length := by
    rw [List.length_append, List.length_drop, sized]
    omega
  rw [List.take_length, overwrite_front, List.set_eq_take_append_cons_drop, if_pos room, List.take_left]
  exact ⟨_, rfl⟩

/-- A name that does not leave room fills the array. -/
theorem copied_long {array name : List Char} (sized : array.length = NAME_LEN) (long : NAME_LEN ≤ name.length) :
    overwrite array 0 (name.take NAME_LEN) = name.take NAME_LEN := by
  have filled : (name.take NAME_LEN).length = NAME_LEN := List.length_take_of_le long
  rw [overwrite_front, filled, ← sized, List.drop_length, List.append_nil]

theorem line_eq {info : AddressInfo} {module_name text : List Char} (named : info.module_name = some module_name)
    (sized : info.nearest_sym_name.length = NAME_LEN)
    (holds : info.nearest_sym_name.takeWhile (· ≠ '\x00') = text) :
    info.line =
      if text = [] then .inModule info.addr module_name info.offset
      else .symbol info.addr module_name info.offset text info.nearest_sym_offset := by
  rw [AddressInfo.line, named]
  dsimp only
  rw [holds]
  cases array : info.nearest_sym_name with
  | nil =>
    rw [array] at sized
    exact absurd sized (by decide)
  | cons c array' =>
    rw [array, List.takeWhile_cons] at holds
    by_cases ended : c = '\x00'
    · rw [decide_eq_false fun apart => apart ended, if_neg Bool.false_ne_true] at holds
      rw [ended, List.head?_cons, if_pos rfl, if_pos holds.symm]
    · rw [decide_eq_true ended, if_pos rfl] at holds
      have some_text : text ≠ [] := by
        rw [← holds]
        exact List.cons_ne_nil _ _
      have head : ¬(c :: array').head? = some '\x00' := fun same => ended (Option.some.inj same)
      rw [if_neg head, if_neg some_text]

theorem ite_or_of_not {p q : Prop} [Decidable p] [Decidable q] (absent : ¬p) {x y : Line} :
    (if q then x else y) = if p ∨ q then x else y := by
  by_cases present : q
  · rw [if_pos present, if_pos (.inr present)]
  · rw [if_neg present, if_neg (not_or_intro absent present)]

theorem read_line (loaded : Loaded) {info : AddressInfo} (sized : info.nearest_sym_name.length = NAME_LEN)
    (addr : BitVec 64) :
    (info.read loaded addr).line = cut loaded addr ∧
      (info.read loaded addr).nearest_sym_name.length = NAME_LEN := by
  rw [AddressInfo.read, cut, lineOf]
  cases loaded.TryGetModule addr with
  | none => exact ⟨rfl, sized⟩
  | some m =>
    dsimp only
    generalize loaded.GetNearestExportedSymbol addr = sym
    by_cases far : sym.sym_addr = 0 ∨ addr - sym.sym_addr ≥ sym.sym_size
    · rw [if_pos far, if_pos (.inl far)]
      have sized' : (info.nearest_sym_name.set 0 '\x00').length = NAME_LEN := by rw [List.length_set, sized]
      have empty : (info.nearest_sym_name.set 0 '\x00').takeWhile (· ≠ '\x00') = [] := by
        cases info.nearest_sym_name with
        | nil => rfl
        | cons c array => rfl
      refine ⟨?_, sized'⟩
      rw [line_eq rfl sized' empty, if_pos rfl]
    · rw [if_neg far]
      have length_copied : (overwrite info.nearest_sym_name 0
          (sym.sym_name.take (min sym.sym_name.length NAME_LEN))).length = NAME_LEN := by
        rw [length_overwrite, sized]
        rw [List.length_take, sized]
        omega
      by_cases short : sym.sym_name.length < NAME_LEN
      · rw [Nat.min_eq_left (Nat.le_of_lt short)] at length_copied ⊢
        obtain ⟨rest, copied⟩ := copied_short sized short
        rw [AddressInfo.terminate, if_pos short, if_pos short]
        refine ⟨?_, (List.length_set ..).trans length_copied⟩
        have text := (congrArg (List.takeWhile (· ≠ '\x00')) copied).trans (takeWhile_text sym.ends)
        rw [line_eq rfl ((List.length_set ..).trans length_copied) text,
          List.take_of_length_le (Nat.le_of_lt short)]
        exact ite_or_of_not far
      · rw [Nat.min_eq_right (Nat.le_of_not_lt short)] at length_copied ⊢
        rw [AddressInfo.terminate, if_neg (Nat.lt_irrefl _), if_neg short]
        refine ⟨?_, length_copied⟩
        have copied := copied_long sized (Nat.le_of_not_lt short)
        have inside : ∀ c ∈ sym.sym_name.take NAME_LEN, decide (c ≠ '\x00') = true := fun c here =>
          decide_eq_true fun same => sym.ends (same ▸ List.mem_of_mem_take here)
        have text := (congrArg (List.takeWhile (· ≠ '\x00')) copied).trans (List.takeWhile_eq_self_iff.mpr inside)
        have some_name : (sym.sym_name.take NAME_LEN = []) = (sym.sym_name = []) := by
          rw [List.take_eq_nil_iff]
          exact propext (or_iff_right (by decide))
        rw [line_eq rfl length_copied text]
        simp only [some_name]
        exact ite_or_of_not far

theorem printLines_eq (percentP : BitVec 64 → List Char) (loaded : Loaded) (drawList_i : Int) {info : AddressInfo}
    (sized : info.nearest_sym_name.length = NAME_LEN) (trace : List (BitVec 64)) :
    printLines percentP loaded drawList_i info trace =
      trace.map fun addr => output drawList_i (SNPrintf ((cut loaded addr).text percentP)) := by
  induction trace generalizing info with
  | nil => rfl
  | cons addr trace ih =>
    obtain ⟨line, sized'⟩ := read_line loaded sized addr
    rw [printLines, line, ih sized', List.map_cons]

/-- The name of the symbol of an address fits into the record with its end, or it just fits and the byte
behind it is zero anyway. -/
def NameFits (loaded : Loaded) (addr : BitVec 64) : Prop :=
  let sym := loaded.GetNearestExportedSymbol addr
  loaded.TryGetModule addr = none ∨ (sym.sym_addr = 0 ∨ addr - sym.sym_addr ≥ sym.sym_size) ∨
    sym.sym_name.length < NAME_LEN ∨
      sym.sym_name.length = NAME_LEN ∧ (addr - sym.sym_addr) &&& 0xff = 0

instance (loaded : Loaded) (addr : BitVec 64) : Decidable (NameFits loaded addr) :=
  inferInstanceAs (Decidable (_ ∨ (_ ∨ _) ∨ _ ∨ _ ∧ _))

/-- The name fits into the record, and the line into the buffer. -/
def Fits (percentP : BitVec 64 → List Char) (loaded : Loaded) (addr : BitVec 64) : Prop :=
  NameFits loaded addr ∧ ((told loaded addr).text percentP).length < BUF_LEN

instance (percentP : BitVec 64 → List Char) (loaded : Loaded) (addr : BitVec 64) : Decidable (Fits percentP loaded addr) :=
  inferInstanceAs (Decidable (_ ∧ _))

theorem length_percentX (n : BitVec 64) : (percentX n).length = 8 :=
  Hex.length_padded (by decide) (n.setWidth 32).isLt

theorem getLsbD_lowByte (i : Nat) : (0xff : BitVec 64).getLsbD i = decide (i < 8) := by
  by_cases inside : i < 64
  · have each : ∀ i < 64, (0xff : BitVec 64).getLsbD i = decide (i < 8) := by decide
    exact each i inside
  · rw [BitVec.getLsbD_of_ge _ _ (Nat.not_lt.mp inside)]
    exact (decide_eq_false (by omega)).symm

/-- The lower half is printed, in which the lowest byte is. -/
theorem percentX_cleared (n : BitVec 64) : percentX (n &&& ~~~0xff) = percentX n ↔ n &&& 0xff = 0 := by
  rw [percentX, percentX, Hex.padded_inj, BitVec.toNat_inj]
  constructor
  · intro same
    apply BitVec.eq_of_getLsbD_eq
    intro i inside
    have bit := congrArg (BitVec.getLsbD · i) same
    simp only [BitVec.getLsbD_setWidth, BitVec.getLsbD_and, BitVec.getLsbD_not, getLsbD_lowByte] at bit ⊢
    grind
  · intro zero
    apply BitVec.eq_of_getLsbD_eq
    intro i inside
    have bit := congrArg (BitVec.getLsbD · i) zero
    simp only [BitVec.getLsbD_setWidth, BitVec.getLsbD_and, BitVec.getLsbD_not, getLsbD_lowByte] at bit ⊢
    grind

variable (percentP : BitVec 64 → List Char)

theorem body_symbol_inj (addr offset : BitVec 64) (module_name : List Char) {name name' : List Char}
    {distance distance' : BitVec 64} :
    (Line.symbol addr module_name offset name distance).body percentP =
        (Line.symbol addr module_name offset name' distance').body percentP ↔
      name = name' ∧ percentX distance = percentX distance' := by
  simp only [Line.body, List.append_right_inj, List.cons.injEq, true_and]
  constructor
  · intro same
    have lengths : ('+' :: (percentX distance ++ [']'])).length = ('+' :: (percentX distance' ++ [']'])).length := by
      simp only [List.length_cons, List.length_append, length_percentX]
    obtain ⟨names, distances⟩ := List.append_inj' same lengths
    exact ⟨names, List.append_cancel_right (List.cons.inj distances).2⟩
  · rintro ⟨rfl, same⟩
    rw [same]

theorem length_body_symbol (addr offset distance : BitVec 64) (module_name name : List Char) :
    ((Line.symbol addr module_name offset name distance).body percentP).length =
      (percentP addr).length + module_name.length + name.length + 25 := by
  simp only [Line.body, List.length_append, List.length_cons, length_percentX, List.length_nil,
    show " => ".toList.length = 4 from rfl, show " [".toList.length = 2 from rfl]
  omega

/-- What is cut off makes the line shorter, and different unless the name fits. -/
theorem cut_body (loaded : Loaded) (addr : BitVec 64) :
    ((cut loaded addr).body percentP).length ≤ ((told loaded addr).body percentP).length ∧
      ((cut loaded addr).body percentP = (told loaded addr).body percentP ↔ NameFits loaded addr) := by
  rw [cut, told, lineOf, lineOf, NameFits]
  cases loaded.TryGetModule addr with
  | none => exact ⟨le_rfl, fun _ => .inl rfl, fun _ => rfl⟩
  | some m =>
    dsimp only
    generalize loaded.GetNearestExportedSymbol addr = sym
    rw [or_iff_right (Option.some_ne_none m)]
    by_cases far : sym.sym_addr = 0 ∨ addr - sym.sym_addr ≥ sym.sym_size
    · rw [if_pos (.inl far), if_pos (.inl far)]
      exact ⟨le_rfl, fun _ => .inl far, fun _ => rfl⟩
    · rw [← ite_or_of_not far, ← ite_or_of_not far, or_iff_right far]
      by_cases empty : sym.sym_name = []
      · rw [if_pos empty, if_pos empty, empty]
        exact ⟨le_rfl, fun _ => .inl (by decide), fun _ => rfl⟩
      · rw [if_neg empty, if_neg empty, length_body_symbol, length_body_symbol, body_symbol_inj]
        refine ⟨by simp only [List.length_take, id]; omega, ?_⟩
        by_cases short : sym.sym_name.length < NAME_LEN
        · rw [if_pos short, List.take_of_length_le (Nat.le_of_lt short)]
          exact ⟨fun _ => .inl short, fun _ => ⟨rfl, rfl⟩⟩
        · rw [if_neg short, or_iff_right short, percentX_cleared]
          refine and_congr_left' ?_
          constructor
          · intro whole
            have lengths := congrArg List.length whole
            rw [List.length_take, id] at lengths
            omega
          · exact fun full => List.take_of_length_le (Nat.le_of_eq full)

/-- The end of a line, and nothing else, may be lost without a draw list. -/
theorem output_eq_iff (drawList_i : Int) {body body' : List Char} (shorter : body.length ≤ body'.length) :
    output drawList_i (SNPrintf (body ++ ['\n'])) = output drawList_i (body' ++ ['\n']) ↔
      body = body' ∧ (body' ++ ['\n']).length < BUF_LEN := by
  have ended (text : List Char) : (text ++ ['\n']).take ((text ++ ['\n']).length - 1) = text := by
    rw [List.length_append, List.length_singleton, Nat.add_sub_cancel, List.take_left]
  by_cases fits : (body ++ ['\n']).length < BUF_LEN
  · have whole : SNPrintf (body ++ ['\n']) = body ++ ['\n'] := List.take_of_length_le (Nat.le_sub_one_of_lt fits)
    have same : output drawList_i (body ++ ['\n']) = output drawList_i (body' ++ ['\n']) ↔ body = body' := by
      unfold output
      split
      · rw [ended, ended, Output.svcOutputDebugString.injEq]
      · rw [Output.printf.injEq, List.append_left_inj]
        exact and_iff_right rfl
    rw [whole, same]
    exact ⟨fun equal => ⟨equal, equal ▸ fits⟩, And.left⟩
  · -- what is left of the line is shorter than the other one
    have filled : (SNPrintf (body ++ ['\n'])).length = BUF_LEN - 1 :=
      List.length_take_of_le (Nat.le_trans (Nat.sub_le _ _) (Nat.not_lt.mp fits))
    have longer : BUF_LEN ≤ (body' ++ ['\n']).length := by
      rw [List.length_append, List.length_singleton] at fits ⊢
      omega
    refine iff_of_false (fun same => ?_) fun both => Nat.not_lt.mpr longer both.2
    unfold output at same
    split at same
    · have lengths := congrArg List.length (Output.svcOutputDebugString.inj same)
      rw [ended, List.length_take, filled] at lengths
      rw [List.length_append, List.length_singleton] at longer
      unfold BUF_LEN at *
      omega
    · have lengths := congrArg List.length (Output.printf.inj same).2
      rw [filled] at lengths
      unfold BUF_LEN at *
      omega

/-- A trace whose lines depend on their addresses only. -/
def lines (drawList_i : Int) (line : BitVec 64 → List Char) (trace : List (BitVec 64)) : List Output :=
  output drawList_i "stack trace:\n".toList :: trace.map fun addr => output drawList_i (line addr)

/-- Each line of a trace is that of its own address, whatever was in the record before. It tells the symbol if
and only if the name and the line fit. -/
theorem trace_told_iff (loaded : Loaded) (drawList_i : Int) (garbage : Fin NAME_LEN → Char)
    (mem : BitVec 64 → Frame) (current_fp : BitVec 64) :
    print percentP loaded drawList_i (.start garbage) (unwind mem max_trace_size current_fp) =
        lines drawList_i (fun addr => SNPrintf ((cut loaded addr).text percentP)) (unwind mem max_trace_size current_fp) ∧
      (print percentP loaded drawList_i (.start garbage) (unwind mem max_trace_size current_fp) =
          lines drawList_i (fun addr => (told loaded addr).text percentP) (unwind mem max_trace_size current_fp) ↔
        ∀ addr ∈ unwind mem max_trace_size current_fp, Fits percentP loaded addr) := by
  have sized : (AddressInfo.start garbage).nearest_sym_name.length = NAME_LEN := List.length_ofFn
  have own : print percentP loaded drawList_i (.start garbage) (unwind mem max_trace_size current_fp) =
      lines drawList_i (fun addr => SNPrintf ((cut loaded addr).text percentP)) (unwind mem max_trace_size current_fp) :=
    congrArg _ (printLines_eq percentP loaded drawList_i sized _)
  have fits (addr : BitVec 64) :
      output drawList_i (SNPrintf ((cut loaded addr).text percentP)) =
          output drawList_i ((told loaded addr).text percentP) ↔ Fits percentP loaded addr := by
    obtain ⟨shorter, same⟩ := cut_body percentP loaded addr
    rw [Line.text, Line.text, output_eq_iff drawList_i shorter, same, Fits, Line.text]
  refine ⟨own, ?_⟩
  rw [own]
  calc lines drawList_i (fun addr => SNPrintf ((cut loaded addr).text percentP)) (unwind mem max_trace_size current_fp) =
        lines drawList_i (fun addr => (told loaded addr).text percentP) (unwind mem max_trace_size current_fp) ↔
      ∀ addr ∈ unwind mem max_trace_size current_fp,
        output drawList_i (SNPrintf ((cut loaded addr).text percentP)) =
          output drawList_i ((told loaded addr).text percentP) := by
        rw [lines, lines, List.cons_inj_right, List.map_inj_left]
    _ ↔ ∀ addr ∈ unwind mem max_trace_size current_fp, Fits percentP loaded addr := forall₂_congr fun addr _ => fits addr

/-- The pointer's sixteen digits. -/
def digits (addr : BitVec 64) : List Char := Hex.padded 16 addr.toNat

def threeFrames (fp : BitVec 64) : Frame :=
  if fp = 0x1000 then ⟨0x1010, 0x5000⟩ else if fp = 0x1010 then ⟨0x1020, 0x7100004⟩ else ⟨0, 0x7100300⟩

/-- One module, in which there are a symbol and, far behind it, one whose name fills the record. -/
def twoSymbols : Loaded where
  TryGetModule addr := if addr < 0x7100000 then none else some ⟨0x7100000, "main".toList⟩
  GetNearestExportedSymbol addr :=
    if addr < 0x7100200 then ⟨"nnMain".toList, 0x100, 0x7100000, by decide⟩
    else ⟨List.replicate 128 's', 0x1000, 0x7100200, by decide⟩

/-- Both names fit, but not on one line. -/
def longNames : Loaded where
  TryGetModule _ := some ⟨0x5000, List.replicate 100 'm'⟩
  GetNearestExportedSymbol _ := ⟨List.replicate 100 's', 0x8000000, 0x5000, by decide⟩

theorem told_twoSymbols : told twoSymbols 0x5000 = .plain 0x5000 ∧
    told twoSymbols 0x7100004 = .symbol 0x7100004 "main".toList 4 "nnMain".toList 4 ∧
    told twoSymbols 0x7100300 = .symbol 0x7100300 "main".toList 0x300 (List.replicate 128 's') 0x100 :=
  ⟨rfl, rfl, rfl⟩

theorem threeFrames_trace :
    (print digits twoSymbols 2 (.start fun _ => 'x') (unwind threeFrames max_trace_size 0x1000) =
      [.printf 2 "stack trace:\n".toList, .printf 2 "0000000000005000\n".toList,
        .printf 2 "0000000007100004 => main+00000004 [nnMain+00000004]\n".toList,
        .printf 2 ("0000000007100300 => main+00000300 [".toList ++ List.replicate 128 's' ++ "+00000100]\n".toList)]) ∧
      print digits longNames (-1) (.start fun _ => 'x') (unwind threeFrames max_trace_size 0x1000) ≠
        lines (-1) (fun addr => (told longNames addr).text digits) (unwind threeFrames max_trace_size 0x1000) := by
  have trace : unwind threeFrames max_trace_size 0x1000 = [0x5000, 0x7100004, 0x7100300] := by decide
  obtain ⟨first, second, third⟩ := told_twoSymbols
  constructor
  · have fit : ∀ addr ∈ unwind threeFrames max_trace_size 0x1000, Fits digits twoSymbols addr := by
      rw [trace]
      rw [List.forall_mem_cons, List.forall_mem_cons, List.forall_mem_singleton, Fits, Fits, Fits, first, second, third]
      decide +kernel
    rw [(trace_told_iff digits twoSymbols 2 (fun _ => 'x') threeFrames 0x1000).2.mpr fit, trace, lines]
    simp only [List.map_cons, first, second, third]
    decide +kernel
  · intro told_
    have fit := (trace_told_iff digits longNames (-1) (fun _ => 'x') threeFrames 0x1000).2.mp told_
    have line : told longNames 0x5000 = .symbol 0x5000 (List.replicate 100 'm') 0 (List.replicate 100 's') 0 := rfl
    rw [trace, List.forall_mem_cons, Fits, line, Line.text, List.length_append, length_body_symbol, List.length_replicate,
      List.length_replicate] at fit
    exact absurd fit.1.2 (by decide +kernel)

end LotusKit.Trace

import LotusKit.Draw.HexDump

/-! What the lines of a dump tell: the arguments of a row give its bytes back, and the lines that a slot
shows give the memory that it looks at. -/

namespace LotusKit.Draw.HexDump
open LotusKit.Lib.Bytes LotusKit.Lib.Memory

theorem word_inj {xs ys : List (BitVec 8)} (lengths : xs.length = ys.length) (same : word xs = word ys) : xs = ys := by
  induction xs generalizing ys with
  | nil => exact (List.length_eq_zero_iff.mp lengths.symm).symm
  | cons x xs ih =>
    cases ys with
    | nil => exact absurd lengths (Nat.succ_ne_zero _)
    | cons y ys =>
      rw [word, word] at same
      have small_x := x.isLt
      have small_y := y.isLt
      have first : x = y := BitVec.eq_of_toNat_eq (by omega)
      rw [first, ih (Nat.succ.inj lengths) (by omega)]

theorem word_lt (xs : List (BitVec 8)) : word xs < 2 ^ (8 * xs.length) := by
  induction xs with
  | nil => exact Nat.one_pos
  | cons x xs ih =>
    have small := x.isLt
    rw [word, List.length_cons, Nat.mul_succ, Nat.pow_add]
    omega

theorem signed_inj {width : Nat} {xs ys : List (BitVec 8)} (length_xs : xs.length = width)
    (length_ys : ys.length = width)
    (same : (BitVec.ofNat (8 * width) (word xs)).toInt = (BitVec.ofNat (8 * width) (word ys)).toInt) : xs = ys := by
  have words := congrArg BitVec.toNat (BitVec.eq_of_toInt_eq same)
  have small_x := word_lt xs
  have small_y := word_lt ys
  rw [length_xs] at small_x
  rw [length_ys] at small_y
  rw [BitVec.toNat_ofNat, BitVec.toNat_ofNat, Nat.mod_eq_of_lt small_x, Nat.mod_eq_of_lt small_y] at words
  exact word_inj (length_xs.trans length_ys.symm) words

/-- A row is told by its elements, where each of them tells its bytes. -/
theorem elements_inj {width : Nat} {arg : List (BitVec 8) → Arg} (divides : width ∣ 0x10)
    (arg_inj : ∀ {xs ys : List (BitVec 8)}, xs.length = width → ys.length = width → arg xs = arg ys → xs = ys)
    {xs ys : List (BitVec 8)} (length_xs : xs.length = 0x10) (length_ys : ys.length = 0x10)
    (same : (elements width xs).map arg = (elements width ys).map arg) : xs = ys := by
  obtain ⟨count, whole⟩ := divides
  have positive : 0 < width := by
    rcases Nat.eq_zero_or_pos width with none | some
    · rw [none, Nat.zero_mul] at whole
      omega
    · exact some
  have counted : 0x10 / width = count := by rw [whole, Nat.mul_div_cancel_left _ positive]
  rw [elements, elements, List.map_map, List.map_map, counted, List.map_inj_left] at same
  apply List.ext_getElem?
  intro j
  rcases Nat.lt_or_ge j 0x10 with inside | outside
  · have here : j / width < count := Nat.div_lt_of_lt_mul (by omega)
    have fits : j / width * width + width ≤ 0x10 := by
      rw [whole, Nat.mul_comm width, ← Nat.succ_mul]
      exact Nat.mul_le_mul_right _ here
    have element : slice xs (j / width * width) width = slice ys (j / width * width) width :=
      arg_inj (length_slice (by omega)) (length_slice (by omega)) (same _ (List.mem_range.mpr here))
    have byte := congrArg (·[j % width]?) element
    have below : j % width < width := Nat.mod_lt _ positive
    rw [getElem?_slice, getElem?_slice, if_pos below, if_pos below, Nat.mul_comm, Nat.div_add_mod] at byte
    exact byte
  · rw [List.getElem?_eq_none (by omega), List.getElem?_eq_none (by omega)]

theorem unsigned_row {width : Nat} (divides : width ∣ 0x10) {xs ys : List (BitVec 8)}
    (length_xs : xs.length = 0x10) (length_ys : ys.length = 0x10) (same : unsigned width xs = unsigned width ys) :
    xs = ys :=
  elements_inj divides (fun at_x at_y args => word_inj (at_x.trans at_y.symm) (Arg.unsigned.inj args))
    length_xs length_ys same

theorem signed_row {width : Nat} (divides : width ∣ 0x10) {xs ys : List (BitVec 8)}
    (length_xs : xs.length = 0x10) (length_ys : ys.length = 0x10) (same : signed width xs = signed width ys) :
    xs = ys :=
  elements_inj divides (fun at_x at_y args => signed_inj at_x at_y (Arg.signed.inj args)) length_xs length_ys same

theorem floats_row {width : Nat} (divides : width ∣ 0x10) {xs ys : List (BitVec 8)}
    (length_xs : xs.length = 0x10) (length_ys : ys.length = 0x10) (same : floats width xs = floats width ys) :
    xs = ys :=
  elements_inj divides (fun at_x at_y args => word_inj (at_x.trans at_y.symm) (Arg.float.inj args))
    length_xs length_ys same

theorem printNumbers_args {hex dec : String} {numbers : List (BitVec 8) → List Arg} {formatHex : Bool}
    {backingSrc : Nat} {xs ys : List (BitVec 8)}
    (same : printNumbers hex dec numbers formatHex 1 backingSrc xs =
      printNumbers hex dec numbers formatHex 1 backingSrc ys) :
    numbers xs = numbers ys := by
  have line := (List.cons.inj same).1
  rw [Line.mk.injEq] at line
  exact (List.cons.inj line.2).2

theorem text_row {xs ys : List (BitVec 8)} {formatHex : Bool} {backingSrc : Nat}
    (length_xs : xs.length = 0x10) (length_ys : ys.length = 0x10)
    (same : print_text formatHex 1 backingSrc xs = print_text formatHex 1 backingSrc ys) : xs = ys := by
  have args := printNumbers_args same
  exact unsigned_row (by decide) length_xs length_ys (List.append_inj_left' args rfl)

theorem code_line {code : Code} {formatHex : Bool} {backingSrc lines : Nat} {xs ys : List (BitVec 8)}
    (same : print_code_aarch64 code formatHex (lines + 1) backingSrc xs =
      print_code_aarch64 code formatHex (lines + 1) backingSrc ys) :
    xs.take 4 = ys.take 4 ∧
      print_code_aarch64 code formatHex lines (backingSrc + 4) (xs.drop 4) =
        print_code_aarch64 code formatHex lines (backingSrc + 4) (ys.drop 4) := by
  obtain ⟨line, rest⟩ := List.cons.inj same
  refine ⟨?_, rest⟩
  have bytes_inj : Function.Injective fun b : BitVec 8 => Arg.unsigned b.toNat := fun a b args =>
    BitVec.eq_of_toNat_eq (Arg.unsigned.inj args)
  dsimp only at line
  split at line
  all_goals
    rw [Line.mk.injEq] at line
    have args := List.append_inj_left' line.2 rfl
    exact List.map_injective_iff.mpr bytes_inj (List.append_cancel_left args)

theorem code_row {code : Code} {formatHex : Bool} {backingSrc : Nat} (lines : Nat) {xs ys : List (BitVec 8)}
    (length_xs : xs.length = lines * 4) (length_ys : ys.length = lines * 4)
    (same : print_code_aarch64 code formatHex lines backingSrc xs =
      print_code_aarch64 code formatHex lines backingSrc ys) :
    xs = ys := by
  induction lines generalizing backingSrc xs ys with
  | zero =>
    rw [Nat.zero_mul, List.length_eq_zero_iff] at length_xs length_ys
    rw [length_xs, length_ys]
  | succ lines ih =>
    obtain ⟨first, rest⟩ := code_line same
    have others : xs.drop 4 = ys.drop 4 :=
      ih (by rw [List.length_drop]; omega) (by rw [List.length_drop]; omega) rest
    rw [← List.take_append_drop 4 xs, ← List.take_append_drop 4 ys, first, others]

namespace HexDumpEntry
variable {slot : HexDumpEntry}

theorem printRow_inj (formatted : slot.dataType ≠ none) {code : Code} {backingSrc : Nat} {xs ys : List (BitVec 8)}
    (length_xs : xs.length = 0x10) (length_ys : ys.length = 0x10)
    (same : slot.printRow code backingSrc xs = slot.printRow code backingSrc ys) : xs = ys := by
  unfold printRow at same
  cases type : slot.dataType with
  | none => exact absurd type formatted
  | some type' =>
    rw [type] at same
    cases type' with
    | U8 | U16 | U32 | U64 => exact unsigned_row (by decide) length_xs length_ys (printNumbers_args same)
    | S8 | S16 | S32 | S64 => exact signed_row (by decide) length_xs length_ys (printNumbers_args same)
    | FLOAT | DOUBLE => exact floats_row (by decide) length_xs length_ys (printNumbers_args same)
    | TEXT => exact text_row length_xs length_ys same
    | CODE_AARCH64 => exact code_row 4 length_xs length_ys same

theorem length_printRow (code : Code) (backingSrc backingSrc' : Nat) (xs ys : List (BitVec 8)) :
    (slot.printRow code backingSrc xs).length = (slot.printRow code backingSrc' ys).length := by
  unfold printRow
  cases slot.dataType with
  | none => rfl
  | some type =>
    cases type
    all_goals rfl

end HexDumpEntry

theorem flatMap_inj {l : List Nat} {f g : Nat → List Line} (lengths : ∀ a ∈ l, (f a).length = (g a).length)
    (same : l.flatMap f = l.flatMap g) : ∀ a ∈ l, f a = g a := by
  induction l with
  | nil =>
    intro a here
    exact absurd here List.not_mem_nil
  | cons b l ih =>
    rw [List.flatMap_cons, List.flatMap_cons] at same
    rw [List.forall_mem_cons] at lengths ⊢
    obtain ⟨first, rest⟩ := List.append_inj same lengths.1
    exact ⟨first, ih lengths.2 rest⟩

/-- What is printed but for the bytes does not depend on the memory. -/
theorem capture_printed (slot : HexDumpEntry) (mem mem' : Nat → BitVec 8) :
    (slot.capture mem).rows = (slot.capture mem').rows ∧ (slot.capture mem).dumpSrc = (slot.capture mem').dumpSrc ∧
      (slot.capture mem).printRow = (slot.capture mem').printRow ∧
      (slot.capture mem).header = (slot.capture mem').header := by
  rw [HexDumpEntry.capture, HexDumpEntry.capture]
  split
  all_goals exact ⟨rfl, rfl, rfl, rfl⟩

theorem capture_dataType (slot : HexDumpEntry) (mem : Nat → BitVec 8) : (slot.capture mem).dataType = slot.dataType := by
  rw [HexDumpEntry.capture]
  split
  all_goals rfl

theorem capture_rows (slot : HexDumpEntry) (mem : Nat → BitVec 8) : (slot.capture mem).rows = slot.rows := by
  rw [HexDumpEntry.capture]
  split
  all_goals rfl

theorem Watch.step_calc {w : Watch} {src len : Nat} (asked : w.asked = some (src, len)) (mem : Nat → BitVec 8) :
    w.step (.calc_ mem) = ⟨some (src, len), ⟨mem, src, len⟩ :: w.dumps, 0, true⟩ := by
  rw [Watch.step, asked]

theorem Refines.lines_iff {slot : HexDumpEntry} {w : Watch} (refines : Refines slot w) {src len : Nat}
    (asked : w.asked = some (src, len)) (formatted : slot.dataType ≠ none) (code : Code) (i : Nat)
    (mem mem' : Nat → BitVec 8) :
    (slot.calc_ code i mem).2 = (slot.calc_ code i mem').2 ↔
      ∀ n < min (slot.rows * 0x10) len, mem (src + n) = mem' (src + n) := by
  obtain ⟨rows, dumpSrc, printRow, header⟩ := capture_printed slot mem' mem
  rw [refines.lines, refines.lines, Watch.step_calc asked, Watch.step_calc asked, if_pos rfl, if_pos rfl,
    rows, dumpSrc, printRow, header, capture_rows]
  constructor
  · intro same n within
    have row : n / 0x10 ∈ List.range slot.rows := List.mem_range.mpr (by omega)
    have lines := flatMap_inj (fun _ _ => HexDumpEntry.length_printRow _ _ _ _ _) (List.cons.inj same).2 _ row
    have formatted' : (slot.capture mem).dataType ≠ none := by rwa [capture_dataType]
    have bytes := HexDumpEntry.printRow_inj formatted' (by simp) (by simp) lines
    rw [List.map_inj_left] at bytes
    have byte := bytes (n % 0x10) (List.mem_range.mpr (Nat.mod_lt _ (by decide)))
    have copied : n < len := lt_of_lt_of_le within (Nat.min_le_right _ _)
    rw [Nat.div_add_mod', shown, shown, if_pos copied, if_pos copied] at byte
    exact byte
  · intro same
    refine congrArg _ (List.flatMap_congr fun row here => congrArg _ (List.map_congr_left fun j inside => ?_))
    rw [List.mem_range] at here inside
    rw [shown, shown]
    split
    case isTrue copied =>
      have within : row * 0x10 + j < len := copied
      exact same _ (by omega)
    case isFalse => rfl

/-- The lines that a live slot shows tell the memory of the rows, as far as it is copied. -/
theorem dump_tells (acts : List Act) (code : Code) (i : Nat) (mem mem' : Nat → BitVec 8) (src len : Nat)
    (asked : (acts.foldl Watch.step .start).asked = some (src, len))
    (formatted : (acts.foldl HexDumpEntry.step .start).dataType ≠ none) :
    ((acts.foldl HexDumpEntry.step .start).calc_ code i mem).2 =
        ((acts.foldl HexDumpEntry.step .start).calc_ code i mem').2 ↔
      ∀ n < min ((acts.foldl HexDumpEntry.step .start).rows * 0x10) len, mem (src + n) = mem' (src + n) :=
  (Refines.run acts Refines.start).lines_iff asked formatted code i mem mem'

/-- Of 32 bytes from 1000 on the last one changes. -/
theorem dump_tells_usual :
    (([Act.assignSlotAbsolute ⟨1000, 0x20, 0x20, [], 10, true⟩].foldl HexDumpEntry.step .start).calc_
        ⟨0, fun _ => []⟩ 0 fun _ => 0).2 ≠
      (([Act.assignSlotAbsolute ⟨1000, 0x20, 0x20, [], 10, true⟩].foldl HexDumpEntry.step .start).calc_
        ⟨0, fun _ => []⟩ 0 fun a => if a = 1031 then 1 else 0).2 := by
  intro same
  have alike := (dump_tells [.assignSlotAbsolute ⟨1000, 0x20, 0x20, [], 10, true⟩] ⟨0, fun _ => []⟩ 0 _ _ 1000 0x20
    rfl (by decide)).mp same 31 (by decide)
  exact absurd alike (by decide)

end LotusKit.Draw.HexDump

import LotusKit.Lib.Bytes
import LotusKit.Lib.Repeat
import Mathlib.Algebra.Group.Int.Defs

/-! Code patches at runtime: the `.ips` file of a patchset is applied to code memory, and
the `.rips` file that takes it back is prepared from code memory beforehand. Addresses
count from the start of the main module. -/

namespace LotusKit.Patch
open LotusKit.Lib.Bytes LotusKit.Lib.Repeat

abbrev File := List UInt8

abbrev CodeMem := Int → UInt8

def IPS32 : List UInt8 := [0x49, 0x50, 0x53, 0x33, 0x32]

def EEOF : List UInt8 := [0x45, 0x45, 0x4F, 0x46]

def NSO_OFFSET : Int := 0x100

/-- `nn::fs::ReadFile`, which fails past the end of the file. -/
def readFile (file : File) (fdOffset size : Nat) : Option (List UInt8) :=
  if fdOffset + size ≤ file.length then some (slice file fdOffset size) else none

/-- Where a record goes. The sum of the source is an `int`, widened for the subtraction. -/
def instAddr (ipsOffset : List UInt8) : Int := (BitVec.ofNat 32 (bigEndian ipsOffset)).toInt - NSO_OFFSET

/-- The code bytes from an address on. -/
def codeAt (mem : CodeMem) (addr : Int) (n : Nat) : List UInt8 :=
  (List.range n).map fun j : Nat => mem (addr + j)

theorem length_codeAt (mem : CodeMem) (addr : Int) (n : Nat) : (codeAt mem addr n).length = n := by
  rw [codeAt, List.length_map, List.length_range]

theorem getElem?_codeAt (mem : CodeMem) (addr : Int) {n j : Nat} (inside : j < n) :
    (codeAt mem addr n)[j]? = some (mem (addr + j)) := by
  rw [codeAt, List.getElem?_map, List.getElem?_range inside, Option.map_some]

def writeInst (mem : CodeMem) (addr : Int) (inst : List UInt8) : CodeMem := fun x =>
  if addr ≤ x ∧ x < addr + 4 then inst.getD (x - addr).toNat 0 else mem x

section Apply

/-- `while (payloadSize > 0)`, which counts the payload down by instructions. -/
def applyPayload (ips : File) (ipsOffset : List UInt8) :
    Nat → Nat → CodeMem → (Nat × CodeMem) ⊕ CodeMem
  | 0, fdOffset, mem => .inl (fdOffset, mem)
  | insts + 1, fdOffset, mem =>
    match readFile ips fdOffset 4 with
    | none => .inr mem
    | some ipsInst =>
      applyPayload ips ipsOffset insts (fdOffset + 4) (writeInst mem (instAddr ipsOffset) ipsInst)

def applyRecord (ips : File) (fdOffset : Nat) (mem : CodeMem) : (Nat × CodeMem) ⊕ CodeMem :=
  match readFile ips fdOffset 4 with
  | none => .inr mem
  | some ipsOffset =>
    if ipsOffset = EEOF then .inr mem
    else
      match readFile ips (fdOffset + 4) 2 with
      | none => .inr mem
      | some ipsPatchSize =>
        if bigEndian ipsPatchSize % 4 ≠ 0 then .inr mem
        else applyPayload ips ipsOffset (bigEndian ipsPatchSize / 4) (fdOffset + 6) mem

theorem applyPayload_inl {ips : File} {ipsOffset : List UInt8} {insts fdOffset : Nat}
    {mem : CodeMem} {s : Nat × CodeMem} (goesOn : applyPayload ips ipsOffset insts fdOffset mem = .inl s) :
    s.1 = fdOffset + 4 * insts := by
  induction insts generalizing fdOffset mem with
  | zero =>
    simp only [applyPayload, Sum.inl.injEq] at goesOn
    rw [← goesOn]
    rfl
  | succ insts ih =>
    simp only [applyPayload] at goesOn
    split at goesOn
    · cases goesOn
    · rw [ih goesOn]
      omega

theorem applyRecord_inl {ips : File} {fdOffset : Nat} {mem : CodeMem} {s : Nat × CodeMem}
    (goesOn : applyRecord ips fdOffset mem = .inl s) : fdOffset < ips.length ∧ fdOffset < s.1 := by
  simp only [applyRecord] at goesOn
  split at goesOn
  · cases goesOn
  next ipsOffset found =>
    have inside : fdOffset + 4 ≤ ips.length := by
      by_contra past
      rw [readFile, if_neg past] at found
      cases found
    split at goesOn
    · cases goesOn
    · split at goesOn
      · cases goesOn
      · split at goesOn
        · cases goesOn
        · have further := applyPayload_inl goesOn
          omega

/-- `while (true)` of `ApplyPatchImpl`. -/
def applyRecords (ips : File) : Loop (Nat × CodeMem) CodeMem where
  body s := applyRecord ips s.1 s.2
  size s := ips.length - s.1
  shrinks s t goesOn := by
    have moves := applyRecord_inl goesOn
    omega

def applyPatchImpl (ips : Option File) (mem : CodeMem) : CodeMem :=
  match ips with
  | none => mem
  | some ips =>
    if ips.length < 10 then mem
    else
      match readFile ips 0 8 with
      | none => mem
      | some magic => if magic.take 5 ≠ IPS32 then mem else (applyRecords ips).run (5, mem)

end Apply

section Prepare

/-- What is done to the `.rips` file. -/
inductive FsOp where
  | createFile (size : Nat)
  | setFileSize (size : Nat)
  | writeFile (fdOffset : Nat) (bytes : List UInt8)
deriving DecidableEq

structure Rips where
  file : File
  ops : List FsOp

def Rips.writeFile (fdOffset : Nat) (bytes : List UInt8) (rips : Rips) : Rips :=
  ⟨overwrite rips.file fdOffset bytes, rips.ops ++ [.writeFile fdOffset bytes]⟩

/-- Read, compare, and write what is different. -/
def Rips.compareWrite (fdOffset : Nat) (bytes : List UInt8) (rips : Rips) : Option Rips :=
  match readFile rips.file fdOffset bytes.length with
  | none => none
  | some found => some (if found ≠ bytes then rips.writeFile fdOffset bytes else rips)

def preparePayload (ipsOffset : List UInt8) (mem : CodeMem) :
    Nat → Nat → Rips → (Nat × Rips) ⊕ Rips
  | 0, fdOffset, rips => .inl (fdOffset, rips)
  | insts + 1, fdOffset, rips =>
    match rips.compareWrite fdOffset (codeAt mem (instAddr ipsOffset) 4) with
    | none => .inr rips
    | some rips => preparePayload ipsOffset mem insts (fdOffset + 4) rips

/-- The label `EEOF`. -/
def Rips.eeof (fdOffset : Nat) (rips : Rips) : Rips := (rips.compareWrite fdOffset EEOF).getD rips

def prepareRecord (ips : File) (mem : CodeMem) (fdOffset : Nat) (rips : Rips) :
    (Nat × Rips) ⊕ Rips :=
  match readFile ips fdOffset 4 with
  | none => .inr rips
  | some ipsOffset =>
    if ipsOffset = EEOF then .inr (rips.eeof fdOffset)
    else
      match rips.compareWrite fdOffset ipsOffset with
      | none => .inr rips
      | some rips =>
        match readFile ips (fdOffset + 4) 2 with
        | none => .inr rips
        | some ipsPatchSize =>
          match rips.compareWrite (fdOffset + 4) ipsPatchSize with
          | none => .inr rips
          | some rips =>
            if bigEndian ipsPatchSize % 4 ≠ 0 then .inr rips
            else preparePayload ipsOffset mem (bigEndian ipsPatchSize / 4) (fdOffset + 6) rips

theorem preparePayload_inl {ipsOffset : List UInt8} {mem : CodeMem} {insts fdOffset : Nat}
    {rips : Rips} {s : Nat × Rips} (goesOn : preparePayload ipsOffset mem insts fdOffset rips = .inl s) :
    s.1 = fdOffset + 4 * insts := by
  induction insts generalizing fdOffset rips with
  | zero =>
    simp only [preparePayload, Sum.inl.injEq] at goesOn
    rw [← goesOn]
    rfl
  | succ insts ih =>
    simp only [preparePayload] at goesOn
    split at goesOn
    · cases goesOn
    · rw [ih goesOn]
      omega

theorem prepareRecord_inl {ips : File} {mem : CodeMem} {fdOffset : Nat} {rips : Rips}
    {s : Nat × Rips} (goesOn : prepareRecord ips mem fdOffset rips = .inl s) :
    fdOffset < ips.length ∧ fdOffset < s.1 := by
  simp only [prepareRecord] at goesOn
  split at goesOn
  · cases goesOn
  next ipsOffset found =>
    have inside : fdOffset + 4 ≤ ips.length := by
      by_contra past
      rw [readFile, if_neg past] at found
      cases found
    split at goesOn
    · cases goesOn
    · split at goesOn
      · cases goesOn
      · split at goesOn
        · cases goesOn
        · split at goesOn
          · cases goesOn
          · split at goesOn
            · cases goesOn
            · have further := preparePayload_inl goesOn
              omega

/-- `while (true)` of `PrepareRevertPatchImpl`. -/
def prepareRecords (ips : File) (mem : CodeMem) : Loop (Nat × Rips) Rips where
  body s := prepareRecord ips mem s.1 s.2
  size s := ips.length - s.1
  shrinks s t goesOn := by
    have moves := prepareRecord_inl goesOn
    omega

/-- `nn::fs::SetFileSize`; what a new part of a file holds is up to the file system. -/
def setFileSize (fill : Nat → UInt8) (file : File) (size : Nat) : File :=
  file.take size ++ (List.range (size - file.length)).map fill

/-- The `.rips` file, opened and made as long as the `.ips` file. -/
def openRips (fill : Nat → UInt8) (rips : Option File) (ipsLen : Nat) : Rips :=
  match rips with
  | some file =>
    if file.length ≠ ipsLen then ⟨setFileSize fill file ipsLen, [.setFileSize ipsLen]⟩
    else ⟨file, []⟩
  | none => ⟨setFileSize fill [] ipsLen, [.createFile ipsLen, .setFileSize ipsLen]⟩

/-- The magic and the records of the opened `.rips` file. -/
def prepareRips (ips : File) (mem : CodeMem) (rips : Rips) : Rips :=
  match readFile rips.file 0 8 with
  | none => rips
  | some magic =>
    let rips := if magic.take 5 ≠ IPS32 then rips.writeFile 0 IPS32 else rips
    (prepareRecords ips mem).run (5, rips)

/-- `PrepareRevertPatchImpl`: the `.rips` file afterwards, and what was done to it. -/
def prepareRevertPatchImpl (fill : Nat → UInt8) (ips rips : Option File) (mem : CodeMem) :
    Option File × List FsOp :=
  match ips with
  | none => (rips, [])
  | some ips =>
    if ips.length < 10 then (rips, [])
    else
      match readFile ips 0 8 with
      | none => (rips, [])
      | some magic =>
        if magic.take 5 ≠ IPS32 then (rips, [])
        else
          let prepared := prepareRips ips mem (openRips fill rips ips.length)
          (some prepared.file, prepared.ops)

/-- The file passes the checks of its size and its magic. -/
def Accepted (file : File) : Prop := 10 ≤ file.length ∧ slice file 0 5 = IPS32

/-- A patchset on the card, and the `.rips` file that was there before. -/
structure Patchset where
  ips : File
  accepted : Accepted ips
  oldRips : Option File
  fill : Nat → UInt8

/-- The `.rips` file that is prepared while code memory is vanilla. -/
def Patchset.rips (vanilla : CodeMem) (set : Patchset) : Option File :=
  (prepareRevertPatchImpl set.fill (some set.ips) set.oldRips vanilla).1

/-- `PatchInstall`. -/
def patchInstall {ι : Type*} (set : ι → Patchset) (patchsetName : ι) (mem : CodeMem) : CodeMem :=
  applyPatchImpl (some (set patchsetName).ips) mem

/-- `PatchRevert`, with what was prepared from vanilla code. -/
def patchRevert {ι : Type*} (set : ι → Patchset) (vanilla : CodeMem) (patchsetName : ι)
    (mem : CodeMem) : CodeMem :=
  applyPatchImpl ((set patchsetName).rips vanilla) mem

end Prepare

section Write

/-- `PatchRecords`: the records in the order of the dictionary. -/
abbrev PatchRecords := List (Int × List UInt8)

/-- `struct.pack(">I", n)` and the like, which fail out of range. -/
def structPack (width : Nat) (n : Int) : Option (List UInt8) :=
  if 0 ≤ n ∧ n < 0x100 ^ width then some (toBigEndian width n.toNat) else none

def writeRecord (offset : Int) (value : List UInt8) : Option (List UInt8) := do
  let offset ← structPack 4 (offset + 0x100)
  if value.length ≤ 0xffff then
    let size ← structPack 2 value.length
    return offset ++ size ++ value
  else none

def writeRecords : PatchRecords → Option (List UInt8)
  | [] => some []
  | (offset, value) :: rest => do
    let record ← writeRecord offset value
    return record ++ (← writeRecords rest)

/-- `write_ips`. -/
def write_ips (patches : PatchRecords) : Option File := do
  return IPS32 ++ (← writeRecords patches) ++ EEOF

end Write

end LotusKit.Patch

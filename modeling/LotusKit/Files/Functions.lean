import LotusKit.Files.World
import LotusKit.Lib.Repeat
import LotusKit.Lib.Scan

/-! The functions that open files. The error of one is the text that it leaves behind or prints. -/

namespace LotusKit.Files
open LotusKit.Lib LotusKit.Lib.Bytes LotusKit.Lib.Repeat LotusKit.Patch

section Util
variable (o : Outcomes)

def canonicalize (path : Path) : Path :=
  if ':' ∈ path then path else "sdcard:/totk_lotuskit/".toList ++ path

def fileExists {ε : Type} (path : Path) : Fs ε Bool := fun w =>
  match Fs.openFile o (canonicalize path) w with
  | (.ok fd, w) => (.ok true, w.closed fd)
  | (.error _, w) => (.ok false, w)

/-- `char errbuf[200]` -/
def errbuf (parts : List Text) : Text := parts.flatten.take 199

/-- `%d`, which takes 32 bits. -/
def percentD (n : Int) : Text := Scan.showInt (BitVec.ofInt 32 n).toInt

def readTextFile (maxOut : Int) (path : Path) : Fs Text (List UInt8) := do
  let cpath := canonicalize path
  let fd ← (Fs.openFile o cpath).orFail (errbuf ["cant open file ".toList, cpath, " ".toList])
  let fdLen ← (Fs.getFileSize o fd).orFail (errbuf ["cant get file size ".toList, cpath, " ".toList])
  Fs.check ((fdLen : Int) ≤ maxOut - 1) (errbuf ["file contents too long ".toList, percentD fdLen, " > ".toList,
    percentD (maxOut - 1), " ".toList, cpath, " ".toList])
  let out ← (Fs.readFile o fd 0 fdLen).orFail (errbuf ["file read fail ".toList, cpath, " ".toList])
  Fs.closeFile fd
  return out ++ [0]

/-- A file that cannot be opened is created. -/
def openOrCreate (cpath : Path) (srcLen : Nat) : Fs Unit Nat := fun w =>
  match Fs.openFile o cpath w with
  | (.ok fd, w) => (.ok fd, w)
  | (.error _, w) => (Fs.createFile o cpath srcLen >>= fun _ => Fs.openFile o cpath) w

def writeFile (src : List UInt8) (path : Path) : Fs Unit Unit := do
  -- `CreateDirectory`
  Fs.ignored
  let fd ← openOrCreate o (canonicalize path) src.length
  Fs.setFileSize o fd src.length
  Fs.writeFile o fd 0 src
  Fs.closeFile fd

end Util

section Patch
variable (o : Outcomes)

def svcOutputDebugString (text : String) (length : Nat) : Text := text.toList.take length

def failRead : Text := svcOutputDebugString "fail read" 9

def failWrite : Text := svcOutputDebugString "fail write" 10

structure Ips where
  ipsFd : Nat
  ipsLen : Nat

def setupIps (ipsFilename : Path) : Fs Text Ips := do
  let ipsFd ← (Fs.openFile o ipsFilename).orFail (svcOutputDebugString "fail open ips" 13)
  let ipsLen ← (Fs.getFileSize o ipsFd).orFail (svcOutputDebugString "fail size ips" 13)
  Fs.check (10 ≤ ipsLen) (svcOutputDebugString "fail null ips" 13)
  let magic ← (Fs.readFile o ipsFd 0 8).orFail failRead
  Fs.check (magic.take 5 = IPS32) (svcOutputDebugString "fail not IPS32" 14)
  return ⟨ipsFd, ipsLen⟩

def resize (ripsFd ripsLen ipsLen : Nat) : Fs Text Unit :=
  if ripsLen ≠ ipsLen then (Fs.setFileSize o ripsFd ipsLen).orFail (svcOutputDebugString "fail resize rips" 16)
  else return ()

def openRips (ripsFilename : Path) : Fs Text Nat :=
  (Fs.openFile o ripsFilename).orFail (svcOutputDebugString "fail open rips" 14)

/-- Identical in size. -/
def setupRips (ripsFilename : Path) (ipsLen : Nat) : Fs Text Nat := do
  let found ← fileExists o ripsFilename
  if found then
    let ripsFd ← openRips o ripsFilename
    let ripsLen ← (Fs.getFileSize o ripsFd).orFail (svcOutputDebugString "fail size rips" 14)
    resize o ripsFd ripsLen ipsLen
    return ripsFd
  else
    (Fs.createFile o ripsFilename ipsLen).orFail (svcOutputDebugString "fail create rips" 15)
    let ripsFd ← openRips o ripsFilename
    (Fs.setFileSize o ripsFd ipsLen).orFail (svcOutputDebugString "fail resize rips" 16)
    return ripsFd

/-- Read, compare, and write what is different. -/
def compareWrite (ripsFd fdOffset : Nat) (bytes : List UInt8) : Fs Text Unit := do
  let found ← (Fs.readFile o ripsFd fdOffset bytes.length).orFail failRead
  if found ≠ bytes then (Fs.writeFile o ripsFd fdOffset bytes).orFail failWrite else return ()

def preparePayload (ipsOffset : List UInt8) (ripsFd : Nat) : Nat → Nat → Fs Text Nat
  | 0, fdOffset => return fdOffset
  | insts + 1, fdOffset => do
    let inst ← Fs.codeAt (instAddr ipsOffset)
    compareWrite o ripsFd fdOffset inst
    preparePayload ipsOffset ripsFd insts (fdOffset + 4)

/-- The offset after a record, or none at the end. -/
def prepareRecord (ipsFd ripsFd fdOffset : Nat) : Fs Text (Option Nat) := do
  let ipsOffset ← (Fs.readFile o ipsFd fdOffset 4).orFail failRead
  if ipsOffset = EEOF then return none
  else
    compareWrite o ripsFd fdOffset ipsOffset
    let ipsPatchSize ← (Fs.readFile o ipsFd (fdOffset + 4) 2).orFail failRead
    compareWrite o ripsFd (fdOffset + 4) ipsPatchSize
    Fs.check (bigEndian ipsPatchSize % 4 = 0) (svcOutputDebugString "fail 4B align" 13)
    let next ← preparePayload o ipsOffset ripsFd (bigEndian ipsPatchSize / 4) (fdOffset + 6)
    return some next

def applyPayload (ipsFd : Nat) (ipsOffset : List UInt8) : Nat → Nat → Fs Text Nat
  | 0, fdOffset => return fdOffset
  | insts + 1, fdOffset => do
    let ipsInst ← (Fs.readFile o ipsFd fdOffset 4).orFail failRead
    Fs.writeInst (instAddr ipsOffset) ipsInst
    applyPayload ipsFd ipsOffset insts (fdOffset + 4)

def applyRecord (ipsFd fdOffset : Nat) : Fs Text (Option Nat) := do
  let ipsOffset ← (Fs.readFile o ipsFd fdOffset 4).orFail failRead
  if ipsOffset = EEOF then return none
  else
    let ipsPatchSize ← (Fs.readFile o ipsFd (fdOffset + 4) 2).orFail failRead
    Fs.check (bigEndian ipsPatchSize % 4 = 0) (svcOutputDebugString "fail 4B align" 13)
    let next ← applyPayload o ipsFd ipsOffset (bigEndian ipsPatchSize / 4) (fdOffset + 6)
    return some next

end Patch

section Records
variable {o : Outcomes}

theorem preparePayload_ok {ipsOffset : List UInt8} {ripsFd insts fdOffset next : Nat} {w w' : World}
    (ran : preparePayload o ipsOffset ripsFd insts fdOffset w = (.ok next, w')) : next = fdOffset + 4 * insts := by
  induction insts generalizing fdOffset w with
  | zero => exact (Except.ok.inj (Prod.mk.inj ran).1).symm
  | succ insts ih =>
    obtain ⟨_, _, -, ran⟩ := Fs.ok_of_bind ran
    obtain ⟨_, _, -, ran⟩ := Fs.ok_of_bind ran
    rw [ih ran]
    omega

theorem applyPayload_ok {ipsOffset : List UInt8} {ipsFd insts fdOffset next : Nat} {w w' : World}
    (ran : applyPayload o ipsFd ipsOffset insts fdOffset w = (.ok next, w')) : next = fdOffset + 4 * insts := by
  induction insts generalizing fdOffset w with
  | zero => exact (Except.ok.inj (Prod.mk.inj ran).1).symm
  | succ insts ih =>
    obtain ⟨_, _, -, ran⟩ := Fs.ok_of_bind ran
    obtain ⟨_, _, -, ran⟩ := Fs.ok_of_bind ran
    rw [ih ran]
    omega

theorem compareWrite_steady (ripsFd fdOffset : Nat) (bytes : List UInt8) :
    Fs.Steady (compareWrite o ripsFd fdOffset bytes) := by
  apply Fs.Steady.bind
  · exact .orFail (.readFile _ _ _) _
  · intro found
    split
    · exact .orFail (.writeFile _ _ _) _
    · exact .pure ()

theorem preparePayload_steady (ipsOffset : List UInt8) (ripsFd insts fdOffset : Nat) :
    Fs.Steady (preparePayload o ipsOffset ripsFd insts fdOffset) := by
  induction insts generalizing fdOffset with
  | zero => exact .pure _
  | succ insts ih => exact .bind (.codeAt _) fun _ => .bind (compareWrite_steady _ _ _) fun _ => ih _

theorem prepareRecord_steady (ipsFd ripsFd fdOffset : Nat) : Fs.Steady (prepareRecord o ipsFd ripsFd fdOffset) := by
  apply Fs.Steady.bind
  · exact .orFail (.readFile _ _ _) _
  · intro ipsOffset
    split
    · exact .pure none
    · apply Fs.Steady.bind (compareWrite_steady _ _ _)
      intro _
      apply Fs.Steady.bind (.orFail (.readFile _ _ _) _)
      intro ipsPatchSize
      apply Fs.Steady.bind (compareWrite_steady _ _ _)
      intro _
      exact .bind (.check _ _) fun _ => .bind (preparePayload_steady _ _ _ _) fun _ => .pure _

theorem applyPayload_steady (ipsFd : Nat) (ipsOffset : List UInt8) (insts fdOffset : Nat) :
    Fs.Steady (applyPayload o ipsFd ipsOffset insts fdOffset) := by
  induction insts generalizing fdOffset with
  | zero => exact .pure _
  | succ insts ih =>
    exact .bind (.orFail (.readFile _ _ _) _) fun _ => .bind (.writeInst _ _) fun _ => ih _

theorem applyRecord_steady (ipsFd fdOffset : Nat) : Fs.Steady (applyRecord o ipsFd fdOffset) := by
  apply Fs.Steady.bind
  · exact .orFail (.readFile _ _ _) _
  · intro ipsOffset
    split
    · exact .pure none
    · apply Fs.Steady.bind (.orFail (.readFile _ _ _) _)
      intro ipsPatchSize
      exact .bind (.check _ _) fun _ => .bind (applyPayload_steady _ _ _ _) fun _ => .pure _

/-- A record that goes on lies in the file, and leaves its size. -/
def Moves (ipsFd : Nat) (record : Nat → Fs Text (Option Nat)) : Prop :=
  ∀ fdOffset w next w', record fdOffset w = (.ok (some next), w') →
    ∃ file, w.fileAt ipsFd = some file ∧ fdOffset < file.length ∧ fdOffset < next ∧ World.Steady w w'

theorem read_inside {fd fdOffset : Nat} {w w' : World} {bytes : List UInt8}
    (ran : (Fs.readFile o fd fdOffset 4).orFail failRead w = (.ok bytes, w')) :
    ∃ file, w.fileAt fd = some file ∧ fdOffset < file.length := by
  obtain ⟨file, found, read⟩ := Fs.ok_of_readFile (Fs.ok_of_orFail ran)
  refine ⟨file, found, ?_⟩
  by_contra past
  rw [Patch.readFile, if_neg (by omega)] at read
  cases read

theorem prepareRecord_moves (ipsFd ripsFd : Nat) : Moves ipsFd (prepareRecord o ipsFd ripsFd) := by
  intro fdOffset w next w' ran
  have steady := @prepareRecord_steady o ipsFd ripsFd fdOffset w
  rw [ran] at steady
  obtain ⟨ipsOffset, _, read, ran⟩ := Fs.ok_of_bind ran
  obtain ⟨file, found, inside⟩ := read_inside read
  split at ran
  · cases ran
  · obtain ⟨_, _, -, ran⟩ := Fs.ok_of_bind ran
    obtain ⟨ipsPatchSize, _, -, ran⟩ := Fs.ok_of_bind ran
    obtain ⟨_, _, -, ran⟩ := Fs.ok_of_bind ran
    obtain ⟨_, _, -, ran⟩ := Fs.ok_of_bind ran
    obtain ⟨later, _, payload, ran⟩ := Fs.ok_of_bind ran
    have further := preparePayload_ok payload
    obtain rfl := Option.some.inj (Except.ok.inj (Prod.mk.inj ran).1)
    exact ⟨file, found, inside, by omega, steady⟩

theorem applyRecord_moves (ipsFd : Nat) : Moves ipsFd (applyRecord o ipsFd) := by
  intro fdOffset w next w' ran
  have steady := @applyRecord_steady o ipsFd fdOffset w
  rw [ran] at steady
  obtain ⟨ipsOffset, _, read, ran⟩ := Fs.ok_of_bind ran
  obtain ⟨file, found, inside⟩ := read_inside read
  split at ran
  · cases ran
  · obtain ⟨ipsPatchSize, _, -, ran⟩ := Fs.ok_of_bind ran
    obtain ⟨_, _, -, ran⟩ := Fs.ok_of_bind ran
    obtain ⟨later, _, payload, ran⟩ := Fs.ok_of_bind ran
    have further := applyPayload_ok payload
    obtain rfl := Option.some.inj (Except.ok.inj (Prod.mk.inj ran).1)
    exact ⟨file, found, inside, by omega, steady⟩

/-- `while (true)`, left with an error or at the end of the records. -/
def recordLoop {ipsFd : Nat} {record : Nat → Fs Text (Option Nat)} (moves : Moves ipsFd record) :
    Loop (Nat × World) (Except Text Nat × World) where
  body s :=
    match record s.1 s.2 with
    | (.ok (some next), w) => .inl (next, w)
    | (.ok none, w) => .inr (.ok s.1, w)
    | (.error error, w) => .inr (.error error, w)
  size s := ((s.2.fileAt ipsFd).map List.length).getD 0 - s.1
  shrinks s t goesOn := by
    split at goesOn
    next next w ran =>
      obtain ⟨file, found, inside, further, steady⟩ := moves s.1 s.2 next w ran
      obtain rfl := Sum.inl.inj goesOn
      rw [steady.size, found, Option.map_some, Option.getD_some]
      show file.length - next < file.length - s.1
      omega
    · cases goesOn
    · cases goesOn

/-- All records, after the magic. -/
def records {ipsFd : Nat} {record : Nat → Fs Text (Option Nat)} (moves : Moves ipsFd record) : Fs Text Nat :=
  fun w => (recordLoop moves).run (5, w)

theorem records_steady {ipsFd : Nat} {record : Nat → Fs Text (Option Nat)} (moves : Moves ipsFd record)
    (steady : ∀ fdOffset, Fs.Steady (record fdOffset)) : Fs.Steady (records moves) := by
  intro w
  have kept : ∀ s : Nat × World, World.Steady s.2 ((recordLoop moves).run s).2 := by
    apply @Loop.induct _ _ (recordLoop moves) (fun s r => World.Steady s.2 r.2)
    · intro s r left
      have here := steady s.1 s.2
      simp only [recordLoop] at left
      split at left
      · cases left
      next ran =>
        rw [ran] at here
        rw [← Sum.inr.inj left]
        exact here
      next ran =>
        rw [ran] at here
        rw [← Sum.inr.inj left]
        exact here
    · intro s t goesOn later
      have here := steady s.1 s.2
      simp only [recordLoop] at goesOn
      split at goesOn
      next ran =>
        rw [ran] at here
        rw [← Sum.inl.inj goesOn] at later ⊢
        exact here.trans later
      · cases goesOn
      · cases goesOn
  exact kept (5, w)

end Records

section Impl
variable (o : Outcomes)

def RUNTIME_PATCHES_DIR : Path := "sdcard:/atmosphere/contents/0100f2c0115b6000/runtime_patches".toList

def compareMagic (ripsFd : Nat) : Fs Text Unit := do
  let magic ← (Fs.readFile o ripsFd 0 8).orFail failRead
  if magic.take 5 ≠ IPS32 then (Fs.writeFile o ripsFd 0 IPS32).orFail failWrite else return ()

def comparePatches (ipsFd ripsFd : Nat) : Fs Text Unit := do
  compareMagic o ripsFd
  let fdOffset ← records (@prepareRecord_moves o ipsFd ripsFd)
  compareWrite o ripsFd fdOffset EEOF

/-- The name of the file of a patchset depends on the version of the game, by `MAIN_NSOBID`. -/
def prepareRevertPatchImpl (MAIN_NSOBID patchsetName : Path) : Fs Text Unit := do
  let path := RUNTIME_PATCHES_DIR ++ '/' :: patchsetName ++ '/' :: MAIN_NSOBID
  let found ← fileExists o (path ++ ".ips".toList)
  Fs.check (found = true) (svcOutputDebugString "no ips" 6)
  let ips ← setupIps o (path ++ ".ips".toList)
  let ripsFd ← setupRips o (path ++ ".rips".toList) ips.ipsLen
  (comparePatches o ips.ipsFd ripsFd).andLabel do
    -- `FlushFile`
    Fs.ignored
    Fs.closeFile ripsFd
    Fs.closeFile ips.ipsFd

def applyPatches (ipsFd : Nat) : Fs Text Unit := do
  let ipsLen ← (Fs.getFileSize o ipsFd).orFail (svcOutputDebugString "fail size ips" 13)
  Fs.check (10 ≤ ipsLen) (svcOutputDebugString "fail null ips" 13)
  let magic ← (Fs.readFile o ipsFd 0 8).orFail failRead
  Fs.check (magic.take 5 = IPS32) (svcOutputDebugString "fail not IPS32" 14)
  let _ ← records (@applyRecord_moves o ipsFd)

def applyPatchImpl (ipsFilename : Path) : Fs Text Unit := do
  let found ← fileExists o ipsFilename
  Fs.check (found = true) (svcOutputDebugString "no ips" 6)
  let ipsFd ← (Fs.openFile o ipsFilename).orFail (svcOutputDebugString "fail open ips" 13)
  (applyPatches o ipsFd).andLabel (Fs.closeFile ipsFd)

end Impl

end LotusKit.Files

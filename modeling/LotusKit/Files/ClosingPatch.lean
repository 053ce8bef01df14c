import LotusKit.Files.Closing

/-! The patch functions hold up to two handles, and one of them keeps what it has when it is
left before its label. -/

namespace LotusKit.Files
open LotusKit.Lib LotusKit.Lib.Bytes LotusKit.Patch

variable {o : Outcomes} {w w₀ : World} {held : Finset Nat} {path : Path}

/-- The file is there and the call that opens it is fine. -/
def World.Opens (o : Outcomes) (w : World) (path : Path) (file : File) : Prop :=
  w.files path = some file ∧ o.fails w.calls = false

theorem World.Holding.withOpen (holding : w₀.Holding held w) (path : Path) :
    w₀.Holding (insert w.handles.table.fresh held) (w.withOpen path) :=
  Handles.Holding.give holding path

theorem fileExists_run (path : Path) : ∃ found after, (∀ ε, fileExists (ε := ε) o path w = (.ok found, after)) ∧
    (found = true ↔ ∃ file, w.Opens o (canonicalize path) file) ∧ after.files = w.files ∧ after.calls = w.calls + 1 ∧
    ∀ w₀ held, World.Holding w₀ held w → World.Holding w₀ held after := by
  by_cases opens : ∃ file, w.Opens o (canonicalize path) file
  · obtain ⟨file, there, fine⟩ := opens
    have ran := openFile_ok there fine
    refine ⟨true, (w.withOpen (canonicalize path)).closed w.handles.table.fresh, fun ε => ?_, ?_, rfl, rfl,
      fun w₀ held holding => ?_⟩
    · rw [fileExists, ran]
    · exact iff_of_true rfl ⟨file, there, fine⟩
    · have closed := Handles.Holding.close (holding.withOpen (canonicalize path)) (Finset.mem_insert_self _ _)
      rwa [Finset.erase_insert (Handles.Holding.fresh_notMem holding)] at closed
  · have ran : Fs.openFile o (canonicalize path) w = (.error (), w.called) := by
      apply openFile_error
      intro file there
      by_contra fine
      exact opens ⟨file, there, Bool.not_eq_true _ ▸ fine⟩
    refine ⟨false, w.called, fun ε => ?_, ?_, rfl, rfl, fun _ _ holding => holding⟩
    · rw [fileExists, ran]
    · exact iff_of_false Bool.false_ne_true opens

section Setup

/-- After it is opened, the `.ips` file has its size and its magic. -/
def IpsFits (o : Outcomes) (calls : Nat) (file : File) : Prop :=
  o.fails (calls + 1) = false ∧ 10 ≤ file.length ∧ o.fails (calls + 2) = false ∧ file.take 5 = IPS32

theorem setupIps_run {file : File} (opens : w.Opens o path file) :
    (IpsFits o w.calls file ∧ ∃ after, setupIps o path w = (.ok ⟨w.handles.table.fresh, file.length⟩, after) ∧
      after.files = w.files ∧ after.calls = w.calls + 3 ∧ after.handles = w.handles.give path) ∨
    (¬ IpsFits o w.calls file ∧ ∃ error after, setupIps o path w = (.error error, after) ∧
      after.handles = w.handles.give path) := by
  have there := fileAt_withOpen opens.1
  unfold setupIps
  rw [Fs.bind_ok _ (Fs.orFail_ok _ (openFile_ok opens.1 opens.2))]
  by_cases size : o.fails (w.calls + 1) = true
  · have ran := @getFileSize_error o (w.withOpen path) w.handles.table.fresh size
    rw [Fs.bind_error _ (Fs.orFail_error _ ran)]
    refine .inr ⟨fun fits => ?_, _, _, rfl, rfl⟩
    rw [fits.1] at size
    cases size
  · rw [Bool.not_eq_true] at size
    have ran := getFileSize_ok there size
    rw [Fs.bind_ok _ (Fs.orFail_ok _ ran)]
    by_cases long : 10 ≤ file.length
    · rw [Fs.bind_ok _ (Fs.check_ok _ long)]
      by_cases read : o.fails (w.calls + 2) = true
      · have ran := @readFile_error o (w.withOpen path).called w.handles.table.fresh 0 8 read
        rw [Fs.bind_error _ (Fs.orFail_error _ ran)]
        refine .inr ⟨fun fits => ?_, _, _, rfl, rfl⟩
        rw [fits.2.2.1] at read
        cases read
      · rw [Bool.not_eq_true] at read
        have inside : 0 + 8 ≤ file.length := by omega
        have ran := @readFile_ok o (w.withOpen path).called _ _ _ _ there read inside
        rw [Fs.bind_ok _ (Fs.orFail_ok _ ran)]
        have front : (slice file 0 8).take 5 = file.take 5 := by
          rw [take_slice file 0 8 5 (by omega), slice, List.drop_zero]
        by_cases magic : file.take 5 = IPS32
        · rw [Fs.bind_ok _ (Fs.check_ok _ (front.trans magic))]
          exact .inl ⟨⟨size, long, read, magic⟩, _, rfl, rfl, rfl, rfl⟩
        · rw [Fs.bind_error _ (Fs.check_error _ fun same => magic (front.symm.trans same))]
          exact .inr ⟨fun fits => magic fits.2.2.2, _, _, rfl, rfl⟩
    · rw [Fs.bind_error _ (Fs.check_error _ long)]
      exact .inr ⟨fun fits => long fits.2.1, _, _, rfl, rfl⟩

/-- The `.rips` file that is there is opened, has its size and gets the new one; one that is not
there is created, opened and gets the size. -/
def RipsFits (o : Outcomes) (calls : Nat) (old : Option File) (ipsLen : Nat) : Prop :=
  (∀ file, old = some file → o.fails calls = false →
    o.fails (calls + 1) = false ∧ o.fails (calls + 2) = false ∧ (file.length ≠ ipsLen → o.fails (calls + 3) = false)) ∧
  ((∀ file, old = some file → o.fails calls = true) →
    old = none ∧ o.fails (calls + 1) = false ∧ o.fails (calls + 2) = false ∧ o.fails (calls + 3) = false)

/-- Done with the `.rips` file open, or left with at least what was held. -/
def SetUp (w₀ : World) (held : Finset Nat) (ran : Except Text Nat × World) (fits : Prop) : Prop :=
  (fits ∧ ∃ fd after, ran = (.ok fd, after) ∧ fd ∉ held ∧ w₀.Holding (insert fd held) after) ∨
    (¬ fits ∧ ∃ error after more, ran = (.error error, after) ∧ held ⊆ more ∧ w₀.Holding more after)

/-- The part for a file that is there. -/
theorem setupRips_found {v : World} {file : File} {ipsLen : Nat} (holding : w₀.Holding held v)
    (there : v.files path = some file) :
    SetUp w₀ held ((do
      let ripsFd ← openRips o path
      let ripsLen ← (Fs.getFileSize o ripsFd).orFail (svcOutputDebugString "fail size rips" 14)
      resize o ripsFd ripsLen ipsLen
      return ripsFd : Fs Text Nat) v)
      (o.fails v.calls = false ∧ o.fails (v.calls + 1) = false ∧ (file.length ≠ ipsLen → o.fails (v.calls + 2) = false)) := by
  have new := Handles.Holding.fresh_notMem holding
  have held' := holding.withOpen path
  have more : held ⊆ insert v.handles.table.fresh held := Finset.subset_insert _ _
  have here := fileAt_withOpen there
  unfold openRips
  by_cases open_ : o.fails v.calls = true
  · have ran := @openFile_error o v path fun _ _ => open_
    rw [Fs.bind_error _ (Fs.orFail_error _ ran)]
    exact .inr ⟨fun fits => Bool.false_ne_true (fits.1.symm.trans open_), _, _, held, rfl, subset_rfl, holding⟩
  · rw [Bool.not_eq_true] at open_
    rw [Fs.bind_ok _ (Fs.orFail_ok _ (openFile_ok there open_))]
    by_cases size : o.fails (v.calls + 1) = true
    · have ran := @getFileSize_error o (v.withOpen path) v.handles.table.fresh size
      rw [Fs.bind_error _ (Fs.orFail_error _ ran)]
      exact .inr ⟨fun fits => Bool.false_ne_true (fits.2.1.symm.trans size), _, _, _, rfl, more, held'⟩
    · rw [Bool.not_eq_true] at size
      have ran := getFileSize_ok here size
      rw [Fs.bind_ok _ (Fs.orFail_ok _ ran)]
      by_cases same : file.length = ipsLen
      · have ran : resize o v.handles.table.fresh file.length ipsLen (v.withOpen path).called =
            (.ok (), (v.withOpen path).called) := by
          rw [resize, if_neg (not_not.mpr same)]
          rfl
        rw [Fs.bind_ok _ ran]
        exact .inl ⟨⟨open_, size, fun other => absurd same other⟩, _, _, rfl, new, held'⟩
      · have resized : resize o v.handles.table.fresh file.length ipsLen =
            (Fs.setFileSize o v.handles.table.fresh ipsLen).orFail (svcOutputDebugString "fail resize rips" 16) :=
          if_pos same
        rw [resized]
        by_cases set : o.fails (v.calls + 2) = true
        · have ran := @setFileSize_error o (v.withOpen path).called v.handles.table.fresh ipsLen set
          rw [Fs.bind_error _ (Fs.orFail_error _ ran)]
          exact .inr ⟨fun fits => Bool.false_ne_true ((fits.2.2 same).symm.trans set), _, _, _, rfl, more, held'⟩
        · rw [Bool.not_eq_true] at set
          have ran := @setFileSize_ok o (v.withOpen path).called v.handles.table.fresh file ipsLen here set
          rw [Fs.bind_ok _ (Fs.orFail_ok _ ran)]
          refine .inl ⟨⟨open_, size, fun _ => set⟩, _, _, rfl, new, ?_⟩
          rw [World.Holding, World.handles_withWrite]
          exact held'

/-- The part for a file that is not found. -/
theorem setupRips_missing {v : World} {ipsLen : Nat} (holding : w₀.Holding held v) :
    SetUp w₀ held ((do
      (Fs.createFile o path ipsLen).orFail (svcOutputDebugString "fail create rips" 15)
      let ripsFd ← openRips o path
      (Fs.setFileSize o ripsFd ipsLen).orFail (svcOutputDebugString "fail resize rips" 16)
      return ripsFd : Fs Text Nat) v)
      (v.files path = none ∧ o.fails v.calls = false ∧ o.fails (v.calls + 1) = false ∧ o.fails (v.calls + 2) = false) := by
  unfold openRips
  cases there : v.files path with
  | some file =>
    have ran := @createFile_error o v path file ipsLen there
    rw [Fs.bind_error _ (Fs.orFail_error _ ran)]
    exact .inr ⟨fun fits => Option.some_ne_none _ fits.1, _, _, held, rfl, subset_rfl, holding⟩
  | none =>
    by_cases create : o.fails v.calls = true
    · have ran := @createFile_fails o v path ipsLen create
      rw [Fs.bind_error _ (Fs.orFail_error _ ran)]
      exact .inr ⟨fun fits => Bool.false_ne_true (fits.2.1.symm.trans create), _, _, held, rfl, subset_rfl, holding⟩
    · rw [Bool.not_eq_true] at create
      have created := createFile_ok ipsLen there create
      rw [Fs.bind_ok _ (Fs.orFail_ok _ created)]
      generalize made : { v.setFile path (Patch.setFileSize o.fill [] ipsLen) with calls := v.calls + 1 } = u
      have calls : u.calls = v.calls + 1 := by rw [← made]
      have file : u.files path = some (Patch.setFileSize o.fill [] ipsLen) := by
        rw [← made]
        exact Function.update_self ..
      have holding' : w₀.Holding held u := by
        rw [← made]
        exact holding
      by_cases open_ : o.fails (v.calls + 1) = true
      · have ran := @openFile_error o u path fun _ _ => calls ▸ open_
        rw [Fs.bind_error _ (Fs.orFail_error _ ran)]
        exact .inr ⟨fun fits => Bool.false_ne_true (fits.2.2.1.symm.trans open_), _, _, held, rfl, subset_rfl, holding'⟩
      · rw [Bool.not_eq_true] at open_
        rw [Fs.bind_ok _ (Fs.orFail_ok _ (openFile_ok file (calls ▸ open_)))]
        have calls' : (u.withOpen path).calls = v.calls + 2 := by
          rw [World.withOpen, calls]
        by_cases set : o.fails (v.calls + 2) = true
        · have ran := @setFileSize_error o (u.withOpen path) u.handles.table.fresh ipsLen (calls' ▸ set)
          rw [Fs.bind_error _ (Fs.orFail_error _ ran)]
          exact .inr ⟨fun fits => Bool.false_ne_true (fits.2.2.2.symm.trans set), _, _, _, rfl, Finset.subset_insert _ _,
            holding'.withOpen path⟩
        · rw [Bool.not_eq_true] at set
          have ran := setFileSize_ok ipsLen (fileAt_withOpen file) (calls' ▸ set)
          rw [Fs.bind_ok _ (Fs.orFail_ok _ ran)]
          refine .inl ⟨⟨rfl, create, open_, set⟩, _, _, rfl, Handles.Holding.fresh_notMem holding', ?_⟩
          rw [World.Holding, World.handles_withWrite]
          exact holding'.withOpen path

theorem setupRips_run (mounted : canonicalize path = path) (ipsLen : Nat) (holding : w₀.Holding held w) :
    SetUp w₀ held (setupRips o path ipsLen w) (RipsFits o w.calls (w.files path) ipsLen) := by
  obtain ⟨found, v, ran, opens, files, calls, keeps⟩ := @fileExists_run o w path
  rw [mounted] at opens
  unfold setupRips
  rw [Fs.bind_ok _ (ran Text)]
  cases found with
  | true =>
    obtain ⟨file, there, fine⟩ := opens.mp rfl
    have rest := @setupRips_found o w₀ held path v file ipsLen (keeps _ _ holding) (files ▸ there)
    rw [calls] at rest
    have same : RipsFits o w.calls (w.files path) ipsLen ↔
        o.fails (w.calls + 1) = false ∧ o.fails (w.calls + 2) = false ∧ (file.length ≠ ipsLen → o.fails (w.calls + 3) = false) := by
      constructor
      · intro fits
        exact fits.1 file there fine
      · intro fits
        refine ⟨fun file' there' _ => ?_, fun closed => ?_⟩
        · obtain rfl := Option.some.inj (there.symm.trans there')
          exact fits
        · rw [closed file there] at fine
          cases fine
    rw [same]
    exact rest
  | false =>
    have rest := @setupRips_missing o w₀ held path v ipsLen (keeps _ _ holding)
    rw [calls, files] at rest
    have closed : ∀ file, w.files path = some file → o.fails w.calls = true := by
      intro file there
      by_contra fine
      exact Bool.false_ne_true (opens.mpr ⟨file, there, Bool.not_eq_true _ ▸ fine⟩)
    have same : RipsFits o w.calls (w.files path) ipsLen ↔ w.files path = none ∧ o.fails (w.calls + 1) = false ∧
        o.fails (w.calls + 2) = false ∧ o.fails (w.calls + 3) = false := by
      constructor
      · intro fits
        exact fits.2 closed
      · intro fits
        refine ⟨fun file there => ?_, fun _ => fits⟩
        rw [fits.1] at there
        cases there
    rw [same]
    exact rest

end Setup

section Impl

theorem comparePatches_steady (ipsFd ripsFd : Nat) : Fs.Steady (comparePatches o ipsFd ripsFd) := by
  have magic : Fs.Steady (compareMagic o ripsFd) := by
    apply Fs.Steady.bind (.orFail (.readFile _ _ _) _)
    intro magic
    split
    · exact .orFail (.writeFile _ _ _) _
    · exact .pure ()
  apply Fs.Steady.bind magic
  intro _
  apply Fs.Steady.bind (records_steady _ (prepareRecord_steady ipsFd ripsFd))
  exact fun fdOffset => compareWrite_steady _ _ _

theorem applyPatches_steady (ipsFd : Nat) : Fs.Steady (applyPatches o ipsFd) := by
  apply Fs.Steady.bind (.orFail (.getFileSize _) _)
  intro ipsLen
  apply Fs.Steady.bind (.check _ _)
  intro _
  apply Fs.Steady.bind (.orFail (.readFile _ _ _) _)
  intro magic
  apply Fs.Steady.bind (.check _ _)
  intro _
  exact .bind (records_steady _ (applyRecord_steady ipsFd)) fun _ => .pure ()

/-- Once both files are open. -/
def PatchIsPrepared (o : Outcomes) (w : World) (ips rips : Path) : Prop :=
  ∀ file, w.files ips = some file → o.fails w.calls = false → o.fails (w.calls + 1) = false →
    IpsFits o (w.calls + 1) file ∧ RipsFits o (w.calls + 4) (w.files rips) file.length

/-- Where the files of a patchset are. -/
def patchPath (MAIN_NSOBID patchsetName : Path) : Path :=
  RUNTIME_PATCHES_DIR ++ '/' :: patchsetName ++ '/' :: MAIN_NSOBID

/-- The path has a mount point. -/
theorem canonicalize_patchPath (MAIN_NSOBID patchsetName ext : Path) :
    canonicalize (patchPath MAIN_NSOBID patchsetName ++ ext) = patchPath MAIN_NSOBID patchsetName ++ ext := by
  have colon : ':' ∈ RUNTIME_PATCHES_DIR := by decide
  rw [canonicalize, if_pos]
  simp only [patchPath, List.append_assoc, List.mem_append, colon, true_or]

theorem prepareRevertPatchImpl_closes_iff (MAIN_NSOBID patchsetName : Path) :
    Closes w (prepareRevertPatchImpl o MAIN_NSOBID patchsetName w).2 ↔
      PatchIsPrepared o w (patchPath MAIN_NSOBID patchsetName ++ ".ips".toList)
        (patchPath MAIN_NSOBID patchsetName ++ ".rips".toList) := by
  have mounted := canonicalize_patchPath MAIN_NSOBID patchsetName
  have ipsMounted := mounted ".ips".toList
  have ripsMounted := mounted ".rips".toList
  unfold prepareRevertPatchImpl
  unfold patchPath at ipsMounted ripsMounted ⊢
  generalize RUNTIME_PATCHES_DIR ++ '/' :: patchsetName ++ '/' :: MAIN_NSOBID ++ ".ips".toList = ips at ipsMounted ⊢
  generalize RUNTIME_PATCHES_DIR ++ '/' :: patchsetName ++ '/' :: MAIN_NSOBID ++ ".rips".toList = rips at ripsMounted ⊢
  obtain ⟨found, v, ran, opens, files, calls, keeps⟩ := @fileExists_run o w ips
  rw [ipsMounted] at opens
  have none_ := keeps w ∅ (Handles.Holding.refl w.handles)
  rw [Fs.bind_ok _ (ran Text)]
  by_cases exists_ : found = true
  · rw [Fs.bind_ok _ (Fs.check_ok _ exists_)]
    obtain ⟨file, there, fine⟩ := opens.mp exists_
    by_cases open_ : o.fails (w.calls + 1) = true
    · have failed : setupIps o ips v = (.error (svcOutputDebugString "fail open ips" 13), v.called) :=
        Fs.bind_error _ (Fs.orFail_error _ (openFile_error fun _ _ => calls ▸ open_))
      rw [Fs.bind_error _ failed]
      refine iff_of_true (none_.settled_iff.mpr rfl) fun _ _ _ fine' => ?_
      exact absurd (fine'.symm.trans open_) Bool.false_ne_true
    · rw [Bool.not_eq_true] at open_
      have holding := none_.withOpen ips
      have ready : PatchIsPrepared o w ips rips ↔
          IpsFits o (w.calls + 1) file ∧ RipsFits o (w.calls + 4) (w.files rips) file.length := by
        constructor
        · intro prepared
          exact prepared file there fine open_
        · intro fits file' there' _ _
          obtain rfl := Option.some.inj (there.symm.trans there')
          exact fits
      rw [ready, ← calls]
      rcases @setupIps_run o v ips file ⟨files ▸ there, calls ▸ open_⟩ with
        ⟨ipsFits, after, setup, files', calls', handles⟩ | ⟨unfit, error, after, setup, handles⟩
      · rw [Fs.bind_ok _ setup]
        have holding' : w.Holding (insert v.handles.table.fresh ∅) after := by
          rw [World.Holding, handles]
          exact holding
        have rest := @setupRips_run o after w _ rips ripsMounted file.length holding'
        rw [files', files, calls', calls] at rest
        rcases rest with ⟨ripsFits, ripsFd, last, done, other, both⟩ | ⟨unfit, error, last, more, done, larger, more_⟩
        · rw [Fs.bind_ok _ done]
          refine iff_of_true ?_ ⟨ipsFits, ripsFits⟩
          have steady := @comparePatches_steady o v.handles.table.fresh ripsFd last
          have still : w.Holding (insert ripsFd (insert v.handles.table.fresh ∅))
              (comparePatches o v.handles.table.fresh ripsFd last).2.called := by
            rw [World.Holding, World.called, steady.handles]
            exact both
          have first := Handles.Holding.close still (Finset.mem_insert_self _ _)
          rw [Finset.erase_insert other] at first
          have second := Handles.Holding.close first (Finset.mem_insert_self _ _)
          exact second.settled_iff.mpr (Finset.erase_insert (Finset.notMem_empty _))
        · rw [Fs.bind_error _ done]
          exact iff_of_false (more_.leaks (larger (Finset.mem_insert_self _ _))) fun fits => unfit fits.2
      · rw [Fs.bind_error _ setup]
        refine iff_of_false ?_ fun fits => unfit fits.1
        apply World.Holding.leaks _ (Finset.mem_insert_self v.handles.table.fresh ∅)
        rw [World.Holding, handles]
        exact holding
  · rw [Fs.bind_error _ (Fs.check_error _ exists_)]
    refine iff_of_true (none_.settled_iff.mpr rfl) fun file there fine => ?_
    exact absurd (opens.mpr ⟨file, there, fine⟩) exists_

/-- Everything after the opening goes to the label. -/
theorem applyPatchImpl_closes (ipsFilename : Path) : Closes w (applyPatchImpl o ipsFilename w).2 := by
  unfold applyPatchImpl
  obtain ⟨found, v, ran, opens, files, calls, keeps⟩ := @fileExists_run o w ipsFilename
  have none_ := keeps w ∅ (Handles.Holding.refl w.handles)
  rw [Fs.bind_ok _ (ran Text)]
  by_cases exists_ : found = true
  · rw [Fs.bind_ok _ (Fs.check_ok _ exists_)]
    -- the file that is opened has the name as it is, which may not be where it was looked for
    by_cases open_ : ∃ file, v.Opens o ipsFilename file
    · obtain ⟨file, there, fine⟩ := open_
      rw [Fs.bind_ok _ (Fs.orFail_ok _ (openFile_ok there fine))]
      have steady := @applyPatches_steady o v.handles.table.fresh (v.withOpen ipsFilename)
      have holding : w.Holding (insert v.handles.table.fresh ∅)
          (applyPatches o v.handles.table.fresh (v.withOpen ipsFilename)).2 := by
        rw [World.Holding, steady.handles]
        exact none_.withOpen ipsFilename
      have closed := Handles.Holding.close holding (Finset.mem_insert_self _ _)
      exact closed.settled_iff.mpr (Finset.erase_insert (Finset.notMem_empty _))
    · have failed : Fs.openFile o ipsFilename v = (.error (), v.called) := by
        apply openFile_error
        intro file there
        by_contra fine
        exact open_ ⟨file, there, Bool.not_eq_true _ ▸ fine⟩
      rw [Fs.bind_error _ (Fs.orFail_error _ failed)]
      exact none_.settled_iff.mpr rfl
  · rw [Fs.bind_error _ (Fs.check_error _ exists_)]
    exact none_.settled_iff.mpr rfl

end Impl

section FileOp

inductive FileOp where
  | readTextFile (maxOut : Int) (path : Path)
  | writeFile (src : List UInt8) (path : Path)
  | prepareRevertPatchImpl (MAIN_NSOBID patchsetName : Path)
  | applyPatchImpl (ipsFilename : Path)

def FileOp.run (o : Outcomes) : FileOp → World → World
  | readTextFile maxOut path, w => (Files.readTextFile o maxOut path w).2
  | writeFile src path, w => (Files.writeFile o src path w).2
  | prepareRevertPatchImpl MAIN_NSOBID patchsetName, w => (Files.prepareRevertPatchImpl o MAIN_NSOBID patchsetName w).2
  | applyPatchImpl ipsFilename, w => (Files.applyPatchImpl o ipsFilename w).2

/-- No call fails, and no check, while a file is open and the label is not in reach. -/
def FileOp.Unbroken (o : Outcomes) (w : World) : FileOp → Prop
  | readTextFile maxOut path => TextIsRead o w maxOut (canonicalize path)
  | writeFile _ path => FileIsWritten o w (canonicalize path)
  | prepareRevertPatchImpl MAIN_NSOBID patchsetName =>
    PatchIsPrepared o w (patchPath MAIN_NSOBID patchsetName ++ ".ips".toList)
      (patchPath MAIN_NSOBID patchsetName ++ ".rips".toList)
  | applyPatchImpl _ => True

theorem file_op_closes_iff (o : Outcomes) (op : FileOp) (w : World) : Closes w (op.run o w) ↔ op.Unbroken o w := by
  cases op with
  | readTextFile maxOut path => exact readTextFile_closes_iff maxOut path
  | writeFile src path => exact writeFile_closes_iff src path
  | prepareRevertPatchImpl MAIN_NSOBID patchsetName => exact prepareRevertPatchImpl_closes_iff MAIN_NSOBID patchsetName
  | applyPatchImpl ipsFilename => exact iff_of_true (applyPatchImpl_closes ipsFilename) trivial

/-- A text file that just does not fit, with its terminator, into a buffer of 256 bytes. -/
def longText : World where
  files path := if path = "sdcard:/a.as".toList then some (List.replicate 256 0x61) else none
  handles := ⟨.empty, []⟩
  calls := 0
  mem _ := 0

theorem long_text_leaks : ¬ Closes longText
    ((FileOp.readTextFile 256 "sdcard:/a.as".toList).run ⟨fun _ => false, fun _ => 0⟩ longText) := by
  rintro ⟨live, -⟩
  have open_ : 0 ∈ ((FileOp.readTextFile 256 "sdcard:/a.as".toList).run ⟨fun _ => false, fun _ => 0⟩
      longText).handles.table.live := by
    show ((((FileOp.readTextFile 256 "sdcard:/a.as".toList).run ⟨fun _ => false, fun _ => 0⟩
      longText).handles.table.cells 0).isSome = true)
    decide +kernel
  rw [live] at open_
  exact Heap.fresh_not_mem_live (le_refl 0) open_

end FileOp

end LotusKit.Files

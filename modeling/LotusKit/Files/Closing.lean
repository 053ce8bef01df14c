import LotusKit.Files.Functions
import LotusKit.Patch.Install

/-! Which functions close what they opened. -/

namespace LotusKit.Files
open LotusKit.Lib LotusKit.Lib.Bytes LotusKit.Patch

/-- The function closed what it opened, and nothing else. -/
def Closes (w w' : World) : Prop := Handles.Settled w.handles w'.handles

/-- Opened since, and still open. -/
abbrev World.Holding (w : World) (held : Finset Nat) (w' : World) : Prop := Handles.Holding w.handles held w'.handles

section Calls
variable {α : Type} {o : Outcomes} {w w₀ : World} {path : Path} {fd : Nat} {file : File} {held : Finset Nat}

theorem Fs.call_fails {does : World → Option (α × World)} (fails : o.fails w.calls = true) :
    Fs.call o does w = (.error (), w.called) := by
  simp only [Fs.call, fails, if_true]

theorem Fs.call_none {does : World → Option (α × World)} (nothing : does w = none) :
    Fs.call o does w = (.error (), w.called) := by
  simp only [Fs.call, nothing, ite_self]

theorem Fs.call_some {does : World → Option (α × World)} {a : α} {after : World} (fine : o.fails w.calls = false)
    (done : does w = some (a, after)) : Fs.call o does w = (.ok a, { after with calls := w.calls + 1 }) := by
  simp only [Fs.call, fine, done, Bool.false_eq_true, if_false]

/-- The world with a file that was just opened. -/
def World.withOpen (w : World) (path : Path) : World := { w.opened path with calls := w.calls + 1 }

theorem fileAt_withOpen (found : w.files path = some file) :
    (w.withOpen path).fileAt w.handles.table.fresh = some file := by
  rw [World.fileAt, World.withOpen, World.opened, Handles.give, Heap.cells_alloc_self, Option.bind_some, found]

theorem openFile_ok (found : w.files path = some file) (fine : o.fails w.calls = false) :
    Fs.openFile o path w = (.ok w.handles.table.fresh, w.withOpen path) := by
  apply Fs.call_some fine
  rw [found, Option.isSome_some, if_pos rfl]

theorem openFile_error (closed : ∀ file, w.files path = some file → o.fails w.calls = true) :
    Fs.openFile o path w = (.error (), w.called) := by
  cases found : w.files path with
  | some file => exact Fs.call_fails (closed file found)
  | none =>
    apply Fs.call_none
    rw [found, Option.isSome_none, if_neg Bool.false_ne_true]

theorem getFileSize_error (fails : o.fails w.calls = true) : Fs.getFileSize o fd w = (.error (), w.called) :=
  Fs.call_fails fails

theorem readFile_error (fdOffset size : Nat) (fails : o.fails w.calls = true) :
    Fs.readFile o fd fdOffset size w = (.error (), w.called) := Fs.call_fails fails

theorem setFileSize_error (size : Nat) (fails : o.fails w.calls = true) :
    Fs.setFileSize o fd size w = (.error (), w.called) := Fs.call_fails fails

theorem writeFile_error (fdOffset : Nat) (bytes : List UInt8) (fails : o.fails w.calls = true) :
    Fs.writeFile o fd fdOffset bytes w = (.error (), w.called) := Fs.call_fails fails

theorem createFile_fails (size : Nat) (fails : o.fails w.calls = true) :
    Fs.createFile o path size w = (.error (), w.called) := Fs.call_fails fails

theorem getFileSize_ok (found : w.fileAt fd = some file) (fine : o.fails w.calls = false) :
    Fs.getFileSize o fd w = (.ok file.length, w.called) := by
  apply Fs.call_some fine
  rw [found, Option.map_some]

theorem readFile_ok {fdOffset size : Nat} (found : w.fileAt fd = some file) (fine : o.fails w.calls = false)
    (inside : fdOffset + size ≤ file.length) :
    Fs.readFile o fd fdOffset size w = (.ok (slice file fdOffset size), w.called) := by
  apply Fs.call_some fine
  rw [found, Option.bind_some, Patch.readFile, if_pos inside, Option.map_some]

/-- The world with a file that was just written. -/
def World.withWrite (w : World) (fd : Nat) (file : File) : World := { w.writeAt fd file with calls := w.calls + 1 }

theorem World.handles_writeAt : (w.writeAt fd file).handles = w.handles := by
  unfold World.writeAt
  split
  · rfl
  · rfl

theorem World.handles_withWrite : (w.withWrite fd file).handles = w.handles := handles_writeAt

theorem setFileSize_ok (size : Nat) (found : w.fileAt fd = some file) (fine : o.fails w.calls = false) :
    Fs.setFileSize o fd size w = (.ok (), w.withWrite fd (Patch.setFileSize o.fill file size)) := by
  apply Fs.call_some fine
  rw [found, Option.map_some]

theorem fileAt_withWrite {after : File} (found : w.fileAt fd = some file) :
    (w.withWrite fd after).fileAt fd = some after := by
  unfold World.fileAt at found
  cases own : w.handles.table.cells fd with
  | none =>
    rw [own] at found
    cases found
  | some path =>
    rw [World.fileAt, World.handles_withWrite, own, Option.bind_some, World.withWrite, World.writeAt, own]
    exact Function.update_self ..

theorem writeFile_ok {fdOffset : Nat} (bytes : List UInt8) (found : w.fileAt fd = some file) (fine : o.fails w.calls = false)
    (inside : fdOffset + bytes.length ≤ file.length) :
    Fs.writeFile o fd fdOffset bytes w = (.ok (), w.withWrite fd (overwrite file fdOffset bytes)) := by
  apply Fs.call_some fine
  rw [found, Option.bind_some, if_pos inside]

theorem createFile_ok (size : Nat) (missing : w.files path = none) (fine : o.fails w.calls = false) :
    Fs.createFile o path size w =
      (.ok (), { w.setFile path (Patch.setFileSize o.fill [] size) with calls := w.calls + 1 }) := by
  apply Fs.call_some fine
  rw [missing, Option.isSome_none, if_neg Bool.false_ne_true]

theorem createFile_error (size : Nat) (occupied : w.files path = some file) :
    Fs.createFile o path size w = (.error (), w.called) := by
  apply Fs.call_none
  rw [occupied, Option.isSome_some, if_pos rfl]

end Calls

section Text
variable {o : Outcomes} {w : World}

theorem Closes.refl {w' : World} (same : w'.handles = w.handles) : Closes w w' := by
  rw [Closes, same]
  exact (Handles.Holding.refl w.handles).settled_iff.mpr rfl

theorem World.Holding.leaks {w' : World} {held : Finset Nat} {fd : Nat} (holding : w.Holding held w') (own : fd ∈ held) :
    ¬ Closes w w' := by
  intro closes
  rw [holding.settled_iff.mp closes] at own
  exact absurd own (Finset.notMem_empty fd)

theorem holding_withOpen (w : World) (path : Path) : w.Holding {w.handles.table.fresh} (w.withOpen path) :=
  (Handles.Holding.refl w.handles).give path

theorem closes_closed (path : Path) {w' : World} (same : w'.handles = w.handles.give path) :
    Closes w (w'.closed w.handles.table.fresh) := by
  have holding := (holding_withOpen w path).close (Finset.mem_singleton_self _)
  rw [Finset.erase_singleton] at holding
  rw [Closes, World.closed, same]
  exact holding.settled_iff.mpr rfl

theorem leaks_open (path : Path) {w' : World} (same : w'.handles = w.handles.give path) : ¬ Closes w w' := by
  apply World.Holding.leaks _ (Finset.mem_singleton_self w.handles.table.fresh)
  rw [World.Holding, same]
  exact holding_withOpen w path

/-- A file that is opened has its size, which fits, and is read. -/
def TextIsRead (o : Outcomes) (w : World) (maxOut : Int) (cpath : Path) : Prop :=
  ∀ file, w.files cpath = some file → o.fails w.calls = false →
    o.fails (w.calls + 1) = false ∧ (file.length : Int) ≤ maxOut - 1 ∧ o.fails (w.calls + 2) = false

theorem readTextFile_closes_iff (maxOut : Int) (path : Path) :
    Closes w (readTextFile o maxOut path w).2 ↔ TextIsRead o w maxOut (canonicalize path) := by
  unfold readTextFile
  generalize canonicalize path = cpath
  by_cases opens : ∀ file, w.files cpath = some file → o.fails w.calls = true
  · rw [Fs.bind_error _ (Fs.orFail_error _ (openFile_error opens))]
    refine iff_of_true (.refl rfl) fun file found fine => ?_
    rw [opens file found] at fine
    cases fine
  · push Not at opens
    obtain ⟨file, found, fine⟩ := opens
    rw [ne_eq, Bool.not_eq_true] at fine
    have there := fileAt_withOpen found
    rw [Fs.bind_ok _ (Fs.orFail_ok _ (openFile_ok found fine))]
    by_cases size : o.fails (w.calls + 1) = true
    · have ran := @getFileSize_error o (w.withOpen cpath) w.handles.table.fresh size
      rw [Fs.bind_error _ (Fs.orFail_error _ ran)]
      refine iff_of_false (leaks_open cpath rfl) fun reads => ?_
      rw [(reads file found fine).1] at size
      cases size
    · rw [Bool.not_eq_true] at size
      have ran := getFileSize_ok there size
      rw [Fs.bind_ok _ (Fs.orFail_ok _ ran)]
      by_cases fits : (file.length : Int) ≤ maxOut - 1
      · rw [Fs.bind_ok _ (Fs.check_ok _ fits)]
        by_cases read : o.fails (w.calls + 2) = true
        · have ran := @readFile_error o (w.withOpen cpath).called w.handles.table.fresh 0 file.length read
          rw [Fs.bind_error _ (Fs.orFail_error _ ran)]
          refine iff_of_false (leaks_open cpath rfl) fun reads => ?_
          rw [(reads file found fine).2.2] at read
          cases read
        · rw [Bool.not_eq_true] at read
          have inside : 0 + file.length ≤ file.length := by omega
          have ran := @readFile_ok o (w.withOpen cpath).called _ _ _ _ there read inside
          rw [Fs.bind_ok _ (Fs.orFail_ok _ ran)]
          refine iff_of_true (closes_closed cpath rfl) fun file' found' _ => ?_
          rw [found] at found'
          obtain rfl := Option.some.inj found'
          exact ⟨size, fits, read⟩
      · rw [Fs.bind_error _ (Fs.check_error _ fits)]
        exact iff_of_false (leaks_open cpath rfl) fun reads => fits (reads file found fine).2.1

/-- A file that is opened, at once or after it is created, is resized and written. -/
def FileIsWritten (o : Outcomes) (w : World) (cpath : Path) : Prop :=
  (∀ file, w.files cpath = some file → o.fails (w.calls + 1) = false →
    o.fails (w.calls + 2) = false ∧ o.fails (w.calls + 3) = false) ∧
  (w.files cpath = none → o.fails (w.calls + 2) = false → o.fails (w.calls + 3) = false →
    o.fails (w.calls + 4) = false ∧ o.fails (w.calls + 5) = false)

/-- What `writeFile` does with the opened file. -/
theorem write_closes_iff {v : World} {cpath : Path} {file : File} (src : List UInt8) (same : v.handles = w.handles)
    (found : v.files cpath = some file) :
    Closes w ((do
      Fs.setFileSize o v.handles.table.fresh src.length
      Fs.writeFile o v.handles.table.fresh 0 src
      Fs.closeFile v.handles.table.fresh : Fs Unit Unit) (v.withOpen cpath)).2 ↔
      o.fails (v.calls + 1) = false ∧ o.fails (v.calls + 2) = false := by
  have there := fileAt_withOpen found
  have given : (v.withOpen cpath).handles = w.handles.give cpath := by rw [← same]; rfl
  by_cases size : o.fails (v.calls + 1) = true
  · have ran := @setFileSize_error o (v.withOpen cpath) v.handles.table.fresh src.length size
    rw [Fs.bind_error _ ran]
    exact iff_of_false (leaks_open cpath given) fun fine => Bool.false_ne_true (fine.1.symm.trans size)
  · rw [Bool.not_eq_true] at size
    have ran := setFileSize_ok src.length there size
    rw [Fs.bind_ok _ ran]
    generalize resized : (v.withOpen cpath).withWrite v.handles.table.fresh (Patch.setFileSize o.fill file src.length) = u
    have calls : u.calls = v.calls + 2 := by rw [← resized]; rfl
    have handles : u.handles = w.handles.give cpath := by rw [← resized, World.handles_withWrite, given]
    by_cases write : o.fails (v.calls + 2) = true
    · have ran := @writeFile_error o u v.handles.table.fresh 0 src (calls ▸ write)
      rw [Fs.bind_error _ ran]
      exact iff_of_false (leaks_open cpath handles) fun fine => Bool.false_ne_true (fine.2.symm.trans write)
    · rw [Bool.not_eq_true] at write
      have now : u.fileAt v.handles.table.fresh = some (Patch.setFileSize o.fill file src.length) := by
        rw [← resized]
        exact fileAt_withWrite there
      have inside : 0 + src.length ≤ (Patch.setFileSize o.fill file src.length).length := by
        rw [length_setFileSize]
        omega
      have ran := writeFile_ok src now (calls ▸ write) inside
      rw [Fs.bind_ok _ ran, same]
      refine iff_of_true (closes_closed cpath ?_) ⟨size, write⟩
      rw [World.handles_withWrite, handles]

theorem openOrCreate_open {cpath : Path} {size fd : Nat} {v w' : World} (ran : Fs.openFile o cpath v = (.ok fd, w')) :
    openOrCreate o cpath size v = (.ok fd, w') := by
  rw [openOrCreate, ran]

theorem openOrCreate_create {cpath : Path} {v w' : World} (size : Nat) (ran : Fs.openFile o cpath v = (.error (), w')) :
    openOrCreate o cpath size v = (Fs.createFile o cpath size >>= fun _ => Fs.openFile o cpath) w' := by
  rw [openOrCreate, ran]

theorem writeFile_closes_iff (src : List UInt8) (path : Path) :
    Closes w (writeFile o src path w).2 ↔ FileIsWritten o w (canonicalize path) := by
  unfold writeFile
  generalize canonicalize path = cpath
  have first : (Fs.ignored : Fs Unit Unit) w = (.ok (), w.called) := rfl
  rw [Fs.bind_ok _ first]
  cases found : w.files cpath with
  | some file =>
    by_cases open_ : o.fails (w.calls + 1) = true
    · have ran : openOrCreate o cpath src.length w.called = (.error (), w.called.called.called) := by
        have closed : Fs.openFile o cpath w.called = (.error (), w.called.called) := openFile_error fun _ _ => open_
        have failed := @createFile_error o w.called.called cpath file src.length found
        rw [openOrCreate_create _ closed, Fs.bind_error _ failed]
      rw [Fs.bind_error _ ran]
      refine iff_of_true (.refl rfl) ⟨fun _ _ fine => ?_, fun missing => ?_⟩
      · rw [open_] at fine
        cases fine
      · rw [found] at missing
        cases missing
    · rw [Bool.not_eq_true] at open_
      have ran : openOrCreate o cpath src.length w.called = (.ok w.handles.table.fresh, w.called.withOpen cpath) :=
        openOrCreate_open (@openFile_ok o w.called cpath file found open_)
      rw [Fs.bind_ok _ ran]
      apply (@write_closes_iff o w w.called cpath file src rfl found).trans
      constructor
      · intro fine
        exact ⟨fun _ _ _ => fine, fun missing => absurd (found.symm.trans missing) (Option.some_ne_none _)⟩
      · intro written
        exact written.1 file found open_
  | none =>
    have closed : Fs.openFile o cpath w.called = (.error (), w.called.called) :=
      openFile_error fun file found' => absurd (found.symm.trans found').symm (Option.some_ne_none _)
    have vacuous : ∀ file, w.files cpath = some file → o.fails (w.calls + 1) = false →
        o.fails (w.calls + 2) = false ∧ o.fails (w.calls + 3) = false :=
      fun file found' => absurd (found.symm.trans found').symm (Option.some_ne_none _)
    by_cases create : o.fails (w.calls + 2) = true
    · have failed := @createFile_fails o w.called.called cpath src.length create
      have ran : openOrCreate o cpath src.length w.called = (.error (), w.called.called.called) := by
        rw [openOrCreate_create _ closed, Fs.bind_error _ failed]
      rw [Fs.bind_error _ ran]
      refine iff_of_true (.refl rfl) ⟨vacuous, fun _ fine => ?_⟩
      rw [create] at fine
      cases fine
    · rw [Bool.not_eq_true] at create
      have created := @createFile_ok o w.called.called cpath src.length found create
      generalize made : { w.called.called.setFile cpath (Patch.setFileSize o.fill [] src.length) with
        calls := w.called.called.calls + 1 } = u at created
      have handles : u.handles = w.handles := by rw [← made]; rfl
      have calls : u.calls = w.calls + 3 := by rw [← made]; rfl
      have file : u.files cpath = some (Patch.setFileSize o.fill [] src.length) := by
        rw [← made]
        exact Function.update_self ..
      by_cases open_ : o.fails (w.calls + 3) = true
      · have ran : openOrCreate o cpath src.length w.called = (.error (), u.called) := by
          rw [openOrCreate_create _ closed, Fs.bind_ok _ created]
          exact openFile_error fun _ _ => calls ▸ open_
        rw [Fs.bind_error _ ran]
        refine iff_of_true (.refl handles) ⟨vacuous, fun _ _ fine => ?_⟩
        rw [open_] at fine
        cases fine
      · rw [Bool.not_eq_true] at open_
        have ran : openOrCreate o cpath src.length w.called = (.ok u.handles.table.fresh, u.withOpen cpath) := by
          rw [openOrCreate_create _ closed, Fs.bind_ok _ created]
          exact openFile_ok file (calls ▸ open_)
        rw [Fs.bind_ok _ ran]
        apply (@write_closes_iff o w u cpath _ src handles file).trans
        rw [calls]
        constructor
        · intro fine
          exact ⟨vacuous, fun _ _ _ => fine⟩
        · intro written
          exact written.2 found create open_

end Text

end LotusKit.Files

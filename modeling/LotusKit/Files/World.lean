import LotusKit.Lib.Handles
import LotusKit.Patch.Ips
import Mathlib.Logic.Function.Basic

/-! The calls of `nn::fs`, each of which can fail, and functions that are left early. -/

namespace LotusKit.Files
open LotusKit.Lib LotusKit.Lib.Bytes LotusKit.Patch

/-- A text without a terminator. -/
abbrev Text := List Char

abbrev Path := Text

/-- What is up to the file system: the calls that fail for a reason of their own, counted from
the start, and what a new part of a file holds. -/
structure Outcomes where
  fails : Nat → Bool
  fill : Nat → UInt8

structure World where
  files : Path → Option File
  handles : Handles Path
  calls : Nat
  mem : CodeMem

namespace World
variable (w : World)

def called : World := { w with calls := w.calls + 1 }

/-- The file of an open handle. -/
def fileAt (fd : Nat) : Option File := (w.handles.table.cells fd).bind w.files

def setFile (path : Path) (file : File) : World := { w with files := Function.update w.files path (some file) }

def writeAt (fd : Nat) (file : File) : World :=
  match w.handles.table.cells fd with
  | none => w
  | some path => w.setFile path file

def opened (path : Path) : World := { w with handles := w.handles.give path }

def closed (fd : Nat) : World := { w with handles := w.handles.close fd }

theorem files_setFile (path : Path) (file : File) : (w.setFile path file).files = Function.update w.files path (some file) :=
  rfl

end World

/-- A part of a function: it goes on, or leaves the function with an error. -/
def Fs (ε α : Type) : Type := World → Except ε α × World

namespace Fs
variable {ε α β : Type}

instance : Monad (Fs ε) where
  pure a w := (.ok a, w)
  bind x f w :=
    match x w with
    | (.ok a, w) => f a w
    | (.error e, w) => (.error e, w)

/-- Left with this error where a call fails. -/
def orFail (x : Fs Unit α) (error : ε) : Fs ε α := fun w =>
  match x w with
  | (.ok a, w) => (.ok a, w)
  | (.error _, w) => (.error error, w)

def check (fits : Prop) [Decidable fits] (error : ε) : Fs ε Unit := fun w =>
  if fits then (.ok (), w) else (.error error, w)

/-- What stands behind a label, which the block goes to when it is done and when it is left. -/
def andLabel (block : Fs ε α) (label : Fs ε Unit) : Fs ε α := fun w => ((block w).1, (label (block w).2).2)

end Fs

namespace Fs
variable {ε α : Type} (o : Outcomes)

/-- A call that fails where it has no result, and where it just fails. -/
def call (does : World → Option (α × World)) : Fs Unit α := fun w =>
  match if o.fails w.calls then none else does w with
  | some (a, after) => (.ok a, { after with calls := w.calls + 1 })
  | none => (.error (), w.called)

def openFile (path : Path) : Fs Unit Nat :=
  call o fun w => if (w.files path).isSome then some (w.handles.table.fresh, w.opened path) else none

def createFile (path : Path) (size : Nat) : Fs Unit Unit :=
  call o fun w => if (w.files path).isSome then none else some ((), w.setFile path (Patch.setFileSize o.fill [] size))

def getFileSize (fd : Nat) : Fs Unit Nat := call o fun w => (w.fileAt fd).map fun file => (file.length, w)

def setFileSize (fd size : Nat) : Fs Unit Unit :=
  call o fun w => (w.fileAt fd).map fun file => ((), w.writeAt fd (Patch.setFileSize o.fill file size))

def readFile (fd fdOffset size : Nat) : Fs Unit (List UInt8) :=
  call o fun w => (w.fileAt fd).bind fun file => (Patch.readFile file fdOffset size).map fun bytes => (bytes, w)

/-- No file is opened for appending, so that writing past its end fails. -/
def writeFile (fd fdOffset : Nat) (bytes : List UInt8) : Fs Unit Unit :=
  call o fun w => (w.fileAt fd).bind fun file =>
    if fdOffset + bytes.length ≤ file.length then some ((), w.writeAt fd (overwrite file fdOffset bytes)) else none

/-- A call whose result is ignored, and which leaves files alone. -/
def ignored : Fs ε Unit := fun w => (.ok (), w.called)

def closeFile (fd : Nat) : Fs ε Unit := fun w => (.ok (), w.closed fd)

def codeAt (addr : Int) : Fs ε (List UInt8) := fun w => (.ok (Patch.codeAt w.mem addr 4), w)

def writeInst (addr : Int) (inst : List UInt8) : Fs ε Unit := fun w =>
  (.ok (), { w with mem := Patch.writeInst w.mem addr inst })

end Fs

section Steady
variable {ε α β : Type} {o : Outcomes}

/-- What reads and writes leave: the handles, and the sizes of the files. -/
structure World.Steady (w w' : World) : Prop where
  handles : w'.handles = w.handles
  sizes : ∀ path, (w'.files path).map List.length = (w.files path).map List.length

namespace World.Steady
variable {w w' w'' : World}

theorem refl (w : World) : Steady w w := ⟨rfl, fun _ => rfl⟩

theorem trans (first : Steady w w') (second : Steady w' w'') : Steady w w'' where
  handles := second.handles.trans first.handles
  sizes path := (second.sizes path).trans (first.sizes path)

theorem size (steady : Steady w w') (fd : Nat) : (w'.fileAt fd).map List.length = (w.fileAt fd).map List.length := by
  rw [fileAt, fileAt, steady.handles]
  cases w.handles.table.cells fd with
  | none => rfl
  | some path => exact steady.sizes path

theorem writeAt {fd : Nat} {file after : File} (found : w.fileAt fd = some file) (length : after.length = file.length) :
    Steady w (w.writeAt fd after) := by
  unfold fileAt at found
  unfold World.writeAt
  split
  next => exact refl w
  next path own =>
    rw [own, Option.bind_some] at found
    refine ⟨rfl, fun other => ?_⟩
    by_cases same : other = path
    · rw [same, files_setFile, Function.update_self, found, Option.map_some, Option.map_some, length]
    · rw [files_setFile, Function.update_of_ne same]

end World.Steady

/-- A part of a function that only reads and writes. -/
def Fs.Steady (x : Fs ε α) : Prop := ∀ w, World.Steady w (x w).2

namespace Fs.Steady
variable {x : Fs ε α} {f : α → Fs ε β}

theorem pure (a : α) : Steady (Pure.pure a : Fs ε α) := fun w => .refl w

theorem bind (first : Steady x) (second : ∀ a, Steady (f a)) : Steady (x >>= f) := by
  intro w
  have here := first w
  show World.Steady w (match x w with | (.ok a, w) => f a w | (.error e, w) => (.error e, w)).2
  cases ran : x w with
  | mk result after =>
    rw [ran] at here
    cases result with
    | ok a => exact here.trans (second a after)
    | error e => exact here

theorem orFail {x : Fs Unit α} (steady : Steady x) (error : ε) : Steady (x.orFail error) := by
  intro w
  have here := steady w
  unfold Fs.orFail
  cases ran : x w with
  | mk result after =>
    rw [ran] at here
    cases result with
    | ok a => exact here
    | error e => exact here

theorem check (fits : Prop) [Decidable fits] (error : ε) : Steady (Fs.check fits error) := by
  intro w
  unfold Fs.check
  split
  · exact .refl w
  · exact .refl w

theorem call {does : World → Option (α × World)}
    (steady : ∀ w a after, does w = some (a, after) → World.Steady w after) : Steady (Fs.call o does) := by
  intro w
  unfold Fs.call
  split
  next a after done =>
    split at done
    · cases done
    · have ⟨handles, sizes⟩ := steady w a after done
      exact ⟨handles, sizes⟩
  next => exact ⟨rfl, fun _ => rfl⟩

theorem getFileSize (fd : Nat) : Steady (Fs.getFileSize o fd) := by
  apply call
  intro w size after done
  obtain ⟨file, -, same⟩ := Option.map_eq_some_iff.mp done
  rw [← (Prod.mk.inj same).2]
  exact .refl w

theorem readFile (fd fdOffset size : Nat) : Steady (Fs.readFile o fd fdOffset size) := by
  apply call
  intro w bytes after done
  obtain ⟨file, -, done⟩ := Option.bind_eq_some_iff.mp done
  obtain ⟨found, -, same⟩ := Option.map_eq_some_iff.mp done
  rw [← (Prod.mk.inj same).2]
  exact .refl w

theorem writeFile (fd fdOffset : Nat) (bytes : List UInt8) : Steady (Fs.writeFile o fd fdOffset bytes) := by
  apply call
  intro w _ after done
  obtain ⟨file, found, done⟩ := Option.bind_eq_some_iff.mp done
  split at done
  case isTrue inside =>
    rw [← (Prod.mk.inj (Option.some.inj done)).2]
    exact .writeAt found (length_overwrite inside)
  case isFalse => cases done

theorem codeAt (addr : Int) : Steady (Fs.codeAt addr : Fs ε _) := fun w => .refl w

theorem writeInst (addr : Int) (inst : List UInt8) : Steady (Fs.writeInst addr inst : Fs ε _) := fun _ => ⟨rfl, fun _ => rfl⟩

end Fs.Steady

end Steady

section Runs
variable {ε α β : Type} {o : Outcomes} {w w' : World} {path : Path} {fd : Nat} {file : File}

theorem Fs.bind_eq (x : Fs ε α) (f : α → Fs ε β) (w : World) :
    (x >>= f) w = match x w with | (.ok a, w) => f a w | (.error e, w) => (.error e, w) := rfl

theorem Fs.bind_ok {x : Fs ε α} {a : α} (f : α → Fs ε β) (ran : x w = (.ok a, w')) : (x >>= f) w = f a w' := by
  rw [bind_eq, ran]

theorem Fs.bind_error {x : Fs ε α} {e : ε} (f : α → Fs ε β) (ran : x w = (.error e, w')) :
    (x >>= f) w = (.error e, w') := by
  rw [bind_eq, ran]

/-- What goes on to the end has gone on all the way. -/
theorem Fs.ok_of_bind {x : Fs ε α} {f : α → Fs ε β} {b : β} (ran : (x >>= f) w = (.ok b, w')) :
    ∃ a after, x w = (.ok a, after) ∧ f a after = (.ok b, w') := by
  rw [bind_eq] at ran
  cases here : x w with
  | mk result after =>
    rw [here] at ran
    cases result with
    | ok a => exact ⟨a, after, rfl, ran⟩
    | error e => cases ran

theorem Fs.orFail_ok {x : Fs Unit α} {a : α} (error : ε) (ran : x w = (.ok a, w')) :
    x.orFail error w = (.ok a, w') := by
  rw [Fs.orFail, ran]

theorem Fs.orFail_error {x : Fs Unit α} {e : Unit} (error : ε) (ran : x w = (.error e, w')) :
    x.orFail error w = (.error error, w') := by
  rw [Fs.orFail, ran]

theorem Fs.ok_of_orFail {x : Fs Unit α} {a : α} {error : ε} (ran : x.orFail error w = (.ok a, w')) :
    x w = (.ok a, w') := by
  rw [Fs.orFail] at ran
  cases here : x w with
  | mk result after =>
    rw [here] at ran
    cases result with
    | ok b =>
      have ⟨value, world⟩ := Prod.mk.inj ran
      rw [Except.ok.inj value, world]
    | error e => cases ran

theorem Fs.check_ok {fits : Prop} [Decidable fits] (error : ε) (holds : fits) : Fs.check fits error w = (.ok (), w) :=
  if_pos holds

theorem Fs.check_error {fits : Prop} [Decidable fits] (error : ε) (fails : ¬ fits) :
    Fs.check fits error w = (.error error, w) := if_neg fails

theorem Fs.ok_of_call {does : World → Option (α × World)} {a : α} (ran : Fs.call o does w = (.ok a, w')) :
    ∃ after, does w = some (a, after) := by
  unfold Fs.call at ran
  split at ran
  next b after done =>
    obtain rfl := Except.ok.inj (Prod.mk.inj ran).1
    split at done
    · cases done
    · exact ⟨after, done⟩
  next => cases ran

/-- Where a file is read, there is a file. -/
theorem Fs.ok_of_readFile {fdOffset size : Nat} {bytes : List UInt8}
    (ran : Fs.readFile o fd fdOffset size w = (.ok bytes, w')) :
    ∃ file, w.fileAt fd = some file ∧ Patch.readFile file fdOffset size = some bytes := by
  obtain ⟨after, done⟩ := Fs.ok_of_call ran
  obtain ⟨file, found, done⟩ := Option.bind_eq_some_iff.mp done
  obtain ⟨found', read, same⟩ := Option.map_eq_some_iff.mp done
  exact ⟨file, found, (Prod.mk.inj same).1 ▸ read⟩

end Runs

end LotusKit.Files

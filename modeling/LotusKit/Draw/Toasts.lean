import LotusKit.Lib.Heap
import Mathlib.Data.List.FinRange
import Mathlib.Logic.Function.Basic

/-! Toasts: texts that are drawn for some frames, and what they take of the heap. -/

namespace LotusKit.Draw
open LotusKit.Lib

/-- `TextWriterDrawCallback*` -/
abbrev Callback := Nat

structure TextWriterToastNode where
  outputText : Option Nat
  fn : Option Callback
  ttlFrames : Nat

inductive Cell where
  | node (value : TextWriterToastNode)
  | text (buf : String)

def MAX_TOASTS : Nat := 0x20

structure TextWriter where
  toasts : Fin MAX_TOASTS → Option Nat
  debugDrawerInternalHeap : Heap Cell

inductive Event where
  | invoke (node : Nat) (fn : Callback)
  | pprintf (node : Nat) (buf : String)
  | free (a : Nat)
  deriving DecidableEq

namespace TextWriter
variable (s : TextWriter)

/-- Reading a node; `none` where there is none. -/
def node (a : Nat) : Option TextWriterToastNode :=
  match s.debugDrawerInternalHeap.cells a with
  | some (.node value) => some value
  | _ => none

def text (a : Nat) : Option String :=
  match s.debugDrawerInternalHeap.cells a with
  | some (.text buf) => some buf
  | _ => none

/-- Where the exchange with the null pointer succeeds. -/
def unusedToast : Option (Fin MAX_TOASTS) := (List.finRange MAX_TOASTS).find? fun i => (s.toasts i).isNone

/-- The new node, if it found a place. -/
def appendNewToastNode (ttlFrames : Nat) : TextWriter × Option Nat :=
  let newNode := s.debugDrawerInternalHeap.fresh
  let heap := s.debugDrawerInternalHeap.alloc (.node ⟨none, none, ttlFrames⟩)
  match s.unusedToast with
  | some i => (⟨Function.update s.toasts i (some newNode), heap⟩, some newNode)
  | none => (⟨s.toasts, heap⟩, none)

/-- With the formatted text in `buf`. -/
def toastf (ttlFrames : Nat) (buf : String) : Option TextWriter :=
  match s.appendNewToastNode ttlFrames with
  | (s, some newNode) => do
    let outputText := s.debugDrawerInternalHeap.fresh
    let heap := s.debugDrawerInternalHeap.alloc (.text buf)
    let value ← s.node newNode
    let heap ← heap.write newNode (.node { value with outputText := some outputText })
    return { s with debugDrawerInternalHeap := heap }
  | (s, none) => some s

/-- One round of the loop of `drawToasts`. -/
def drawToast (drawn : TextWriter × List Event) (i : Fin MAX_TOASTS) : Option (TextWriter × List Event) :=
  let (s, events) := drawn
  match s.toasts i with
  | none => some drawn
  | some a => do
    let value ← s.node a
    if value.ttlFrames = 0 then
      match value.outputText with
      | some outputText =>
        let heap ← s.debugDrawerInternalHeap.free outputText
        let heap ← heap.free a
        return (⟨Function.update s.toasts i none, heap⟩, events ++ [.free outputText, .free a])
      | none =>
        let heap ← s.debugDrawerInternalHeap.free a
        return (⟨Function.update s.toasts i none, heap⟩, events ++ [.free a])
    else
      let heap ← s.debugDrawerInternalHeap.write a (.node { value with ttlFrames := value.ttlFrames - 1 })
      let events := events ++ (value.fn.map (.invoke a)).toList
      match value.outputText with
      | some outputText =>
        let buf ← s.text outputText
        return ({ s with debugDrawerInternalHeap := heap }, events ++ [.pprintf a buf])
      | none => return ({ s with debugDrawerInternalHeap := heap }, events)

def drawToasts : Option (TextWriter × List Event) :=
  (List.finRange MAX_TOASTS).foldlM drawToast (s, [])

/-- What the array leads to. -/
def reachable : Set Nat :=
  {a | ∃ i node, s.toasts i = some node ∧ (a = node ∨ ∃ value, s.node node = some value ∧ value.outputText = some a)}

def start : TextWriter := ⟨fun _ => none, .empty⟩

end TextWriter

inductive Op where
  | toastf (ttlFrames : Nat) (buf : String)
  | drawToasts
  deriving DecidableEq

/-- `none` is a use of a dead allocation, or a second free. -/
def TextWriter.step (s : TextWriter) : Op → Option TextWriter
  | .toastf ttlFrames buf => s.toastf ttlFrames buf
  | .drawToasts => s.drawToasts.map Prod.fst

def TextWriter.run (ops : List Op) (s : TextWriter) : Option TextWriter := ops.foldlM TextWriter.step s

end LotusKit.Draw

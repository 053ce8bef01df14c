import LotusKit.Lib.LinkedList
import Mathlib.Data.List.FinRange

/-! The draw lists of a frame. Any thread may append to them, node by node, and one draws what has
been appended and frees it all at once. A thread that finds the lock taken while it wants to append
gives up. Each step here is one access to what the threads share. -/

namespace LotusKit.Frame
open LotusKit.Lib.LinkedList

/-- An address in the heap of the frame. -/
abbrev Ptr := Nat

variable {T α : Type} {K : Nat}

/-- What a thread does next. -/
inductive Pc (K : Nat) (α : Type) where
  | idle
  /-- `frame.heap->alloc` of the node -/
  | alloc (drawList_i : Fin K) (content : α)
  /-- `frame.heap->alloc` of what the node refers to -/
  | allocArgs (drawList_i : Fin K) (content : α) (newNode : Ptr)
  /-- `frame.drawLists[drawList_i].compare_exchange_strong` -/
  | append (drawList_i : Fin K) (content : α) (newNode : Ptr)
  /-- `frame.drawLists[drawList_i].load()`, when there is a node already -/
  | enter (drawList_i : Fin K) (content : α) (newNode : Ptr)
  /-- `node->next.compare_exchange_strong` -/
  | walk (drawList_i : Fin K) (content : α) (newNode node : Ptr)
  /-- `UnlockMutex` -/
  | release
  /-- `frame.drawLists[i].load()`, or what is done behind the last list -/
  | drawList (i : Nat)
  | drawNode (i : Fin K) (node : Ptr)
  /-- `frame.drawLists[i].store(nullptr)` -/
  | wipe (i : Fin K)

/-- What is not determined by the state: the calls of an idle thread, and how an allocation ends. -/
inductive Choice (K : Nat) (α : Type) where
  | appendNewDrawNode (drawList_i : Fin K) (content : α)
  | drawFrame
  | allocated (newNode : Option Ptr)
  | allocatedArgs (done : Bool)
  | go

inductive DrawEvent (K : Nat) (α : Type) where
  | appended (drawList_i : Fin K) (content : α)
  | drawn (i : Fin K) (content : α)
  | freed
deriving DecidableEq

/-- `TextWriterFrame` and `PrimitiveDrawerFrame`, with the threads that use them. -/
structure DrawFrame (T α : Type) (K : Nat) where
  drawListLock : Option T
  drawLists : Fin K → Option Ptr
  heap : Memory Ptr α
  pc : T → Pc K α

/-- A step may not be possible, or touch a node that is not alive. -/
inductive Outcome (State Event : Type) where
  | blocked
  | fault
  | next (s : State) (event : Option Event)

namespace DrawFrame
variable [DecidableEq T] (hasArgs : α → Bool) (s : DrawFrame T α K) (t : T)

def goto (pc : Pc K α) : DrawFrame T α K := { s with pc := Function.update s.pc t pc }

/-- `hasArgs` is whether a node refers to something that is allocated too. -/
def step : Choice K α → Outcome (DrawFrame T α K) (DrawEvent K α)
  | .appendNewDrawNode i x =>
    match s.pc t with
    | .idle =>
      -- `TryLockMutex`
      if s.drawListLock.isNone then .next { s.goto t (.alloc i x) with drawListLock := some t } none
      else .next s none
    | _ => .blocked
  | .drawFrame =>
    match s.pc t with
    | .idle =>
      -- `LockMutex`
      if s.drawListLock.isNone then .next { s.goto t (.drawList 0) with drawListLock := some t } none
      else .blocked
    | _ => .blocked
  | .allocated newNode =>
    match s.pc t, newNode with
    | .alloc _ _, none => .next (s.goto t .release) none
    | .alloc i x, some p =>
      -- nothing is allocated where something lives
      if (s.heap p).isNone then
        .next { s.goto t (.allocArgs i x p) with heap := Function.update s.heap p (some ⟨x, none⟩) } none
      else .blocked
    | _, _ => .blocked
  | .allocatedArgs done =>
    match s.pc t with
    | .allocArgs i x p => .next (s.goto t (if hasArgs x && !done then .release else .append i x p)) none
    | _ => .blocked
  | .go =>
    match s.pc t with
    | .append i x p =>
      if (s.drawLists i).isNone then
        .next { s.goto t .release with drawLists := Function.update s.drawLists i (some p) } (some (.appended i x))
      else .next (s.goto t (.enter i x p)) none
    | .enter i x p =>
      match s.drawLists i with
      | none => .next (s.goto t .release) none
      | some node => .next (s.goto t (.walk i x p node)) none
    | .walk i x p node =>
      match s.heap node with
      | none => .fault
      | some ⟨content, none⟩ =>
        .next { s.goto t .release with heap := Function.update s.heap node (some ⟨content, some p⟩) } (some (.appended i x))
      | some ⟨_, some cmpNode⟩ => .next (s.goto t (.walk i x p cmpNode)) none
    | .release => .next { s.goto t .idle with drawListLock := none } none
    | .drawList i =>
      if inside : i < K then
        match s.drawLists ⟨i, inside⟩ with
        | none => .next (s.goto t (.drawList (i + 1))) none
        | some node => .next (s.goto t (.drawNode ⟨i, inside⟩ node)) none
      else
        -- `frame.heap->freeAll()`
        .next { s.goto t .release with heap := fun _ => none } (some .freed)
    | .drawNode i node =>
      match s.heap node with
      | none => .fault
      | some ⟨x, none⟩ => .next (s.goto t (.wipe i)) (some (.drawn i x))
      | some ⟨x, some next⟩ => .next (s.goto t (.drawNode i next)) (some (.drawn i x))
    | .wipe i =>
      .next { s.goto t (.drawList (i + 1)) with drawLists := Function.update s.drawLists i none } none
    | _ => .blocked

/-- Threads take turns in any order, and a turn that is not possible is passed over. `none` is a run
that touches a node that is not alive. -/
def run (s : DrawFrame T α K) : List (T × Choice K α) → Option (DrawFrame T α K × List (DrawEvent K α))
  | [] => some (s, [])
  | (t, c) :: turns =>
    match s.step hasArgs t c with
    | .blocked => s.run turns
    | .fault => none
    | .next s' event => (s'.run turns).map fun ended => (ended.1, event.toList ++ ended.2)

def start : DrawFrame T α K := ⟨none, fun _ => none, fun _ => none, fun _ => .idle⟩

end DrawFrame

structure TextWriterDrawNode (Fn Color Scale : Type) where
  outputText : Option String
  fn : Option Fn
  color : Color
  scale : Scale
deriving DecidableEq

def TextWriterDrawNode.hasArgs {Fn Color Scale : Type} (node : TextWriterDrawNode Fn Color Scale) : Bool :=
  node.outputText.isSome

abbrev TextWriterFrame (T Fn Color Scale : Type) :=
  DrawFrame T (TextWriterDrawNode Fn Color Scale) 8

structure PrimitiveDrawerDrawNode (Args : Type) where
  primCallType : UInt8
  primCallArgs : Args
deriving DecidableEq

/-- No call is without arguments. -/
def PrimitiveDrawerDrawNode.hasArgs {Args : Type} (_ : PrimitiveDrawerDrawNode Args) : Bool := true

abbrev PrimitiveDrawerFrame (T Args : Type) := DrawFrame T (PrimitiveDrawerDrawNode Args) 2

end LotusKit.Frame

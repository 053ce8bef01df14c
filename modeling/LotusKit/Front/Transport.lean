import Mathlib.Data.List.Nodup
import Mathlib.Logic.Function.Basic

/-! The messages of the mod as the page gets them. Callbacks subscribe to a namespace, and one that has
got all it waits for takes itself out of the array that is being walked through. -/

namespace LotusKit.Front

/-- A message, with the fields that callbacks look at. -/
structure Payload where
  ns : String
  msg : Option String
  name : Option String
  size : Option Int
  type : Option Nat
  endDump : Bool
deriving DecidableEq

/-- What a callback of `subscribe_ns_async` does, and what it has gathered. -/
inductive Request where
  | reqDumpTextFile (output : String)
  | reqDirectoryIndex (output : List Payload)
  /-- `refresh` of the patches -/
  | patchIndex (output : List String)
deriving DecidableEq

namespace Request

/-- `cb_user_each`: whether the callback is done with the subscription. -/
def each : Request → Payload → Request × Bool
  | reqDumpTextFile output, payload =>
    (match payload.msg with
      | some msg => reqDumpTextFile (output ++ msg)
      | none => reqDumpTextFile output, payload.endDump)
  | reqDirectoryIndex output, payload =>
    if payload.endDump then (reqDirectoryIndex output, true) else (reqDirectoryIndex (output ++ [payload]), false)
  | patchIndex output, payload =>
    (match payload.name with
      | some name => patchIndex (if name = "" then output else output ++ [name])
      | none => patchIndex output, payload.endDump)

/-- What is gathered from one message after the other. -/
def feed (request : Request) (payloads : List Payload) : Request :=
  payloads.foldl (fun request payload => (request.each payload).1) request

theorem each_done (request : Request) (payload : Payload) : (request.each payload).2 = payload.endDump := by
  cases request with
  | reqDirectoryIndex output =>
    rw [each]
    split
    case isTrue done => exact done.symm
    case isFalse more => exact (Bool.not_eq_true _ ▸ more).symm
  | _ => rfl

end Request

/-- A callback of `subscribe_ns_async`, and whether its promise is resolved. -/
structure Closure where
  ns : String
  request : Request
  resolved : Bool
deriving DecidableEq

/-- A callback goes by the number of those that were made before it. -/
structure WSTransport where
  ns_subscriptions : String → Option (List Nat)
  closures : List Closure

namespace WSTransport

def start : WSTransport := ⟨fun _ => none, []⟩

variable (t : WSTransport)

def subscribe_ns (ns : String) (cbfunc : Nat) : WSTransport :=
  match t.ns_subscriptions ns with
  | some cbs =>
    if cbfunc ∈ cbs then t
    else { t with ns_subscriptions := Function.update t.ns_subscriptions ns (some (cbs ++ [cbfunc])) }
  | none => { t with ns_subscriptions := Function.update t.ns_subscriptions ns (some [cbfunc]) }

def unsubscribe_ns (ns : String) (cbfunc : Nat) : WSTransport :=
  match t.ns_subscriptions ns with
  | none => t
  | some cbs =>
    if cbfunc ∈ cbs then
      { t with ns_subscriptions := Function.update t.ns_subscriptions ns (some (cbs.eraseIdx (cbs.idxOf cbfunc))) }
    else t

def subscribe_ns_async (ns : String) (request : Request) : WSTransport :=
  let made : WSTransport := { t with closures := t.closures ++ [⟨ns, request, false⟩] }
  made.subscribe_ns ns t.closures.length

def cb (i : Nat) (payload : Payload) : WSTransport :=
  match t.closures[i]? with
  | none => t
  | some c =>
    let (request, done) := c.request.each payload
    let called : WSTransport := { t with closures := t.closures.set i ⟨c.ns, request, c.resolved || done⟩ }
    if done then called.unsubscribe_ns c.ns i else called

/-- One round of `forEach`: the array may have become shorter. -/
def visit (payload : Payload) (k : Nat) : WSTransport :=
  match t.ns_subscriptions payload.ns with
  | none => t
  | some cbs =>
    match cbs[k]? with
    | none => t
    | some i => t.cb i payload

def consume_ws_msg (payload : Payload) : WSTransport :=
  match t.ns_subscriptions payload.ns with
  | none => t
  -- `forEach` takes the length of the array once
  | some cbs => (List.range cbs.length).foldl (fun t k => t.visit payload k) t

end WSTransport

inductive Event where
  | subscribe_ns_async (ns : String) (request : Request)
  | message (payload : Payload)
deriving DecidableEq

def Event.ns : Event → String
  | subscribe_ns_async ns _ => ns
  | message payload => payload.ns

def WSTransport.handle (t : WSTransport) : Event → WSTransport
  | .subscribe_ns_async ns request => t.subscribe_ns_async ns request
  | .message payload => t.consume_ws_msg payload

def WSTransport.run (t : WSTransport) (events : List Event) : WSTransport := events.foldl handle t

end LotusKit.Front

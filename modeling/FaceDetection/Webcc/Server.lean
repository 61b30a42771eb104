import FaceDetection.Trace
import FaceDetection.Webcc.Connection
import FaceDetection.Workers

/-!
# The server

`server.cc`, `connection_pool.cc` and `request_handler.cc`: one thread runs the handlers of finished
operations, and the workers take connections off the queue. Each event is one handler, one step of a
worker between two uses of the queue, or the return of `Stop`. The events may come in any order.
-/

open FaceDetection.Trace

namespace FaceDetection.Webcc

/-- Where the thread of `Run` is: at the next handler, in `Stop` while the workers end, or in a handler
that does not come to an end. -/
inductive Io where
  | running
  | joining
  | stuck
  deriving DecidableEq

/-- `connections` are all that have been accepted, `pool` those that the pool has. `down` says that an
exception has ended the process. -/
structure Server (κ : Type) where
  acceptor_open : Bool
  accepting : Bool
  awaiting : Bool
  accepted : Nat
  connections : Nat → Option Connection
  pool : Finset Nat
  workers : Workers Nat κ
  io : Io
  down : Bool

namespace Server

variable {κ : Type} [DecidableEq κ] [Fintype κ]

inductive Event (κ : Type) where
  | accept (ok : Bool)
  | read (i : Nat) (data timestamp : Bytes)
  | readFailed (i : Nat) (aborted : Bool)
  | written (i : Nat)
  | writeFailed (i : Nat) (aborted : Bool)
  | signal
  | stopped
  | pop (k : κ)
  | handle (k : κ) (uninitialised : Int) (timestamp : Bytes)
  | leave (k : κ)

/-- The server when `Run` has begun to run handlers. -/
def init : Server κ where
  acceptor_open := true
  accepting := true
  awaiting := true
  accepted := 0
  connections := fun _ => none
  pool := ∅
  workers := { queue := [], state := fun _ => .waiting }
  io := .running
  down := false

def setConnection (s : Server κ) (i : Nat) (c : Connection) : Server κ :=
  { s with connections := Function.update s.connections i (some c) }

/-- `ConnectionPool::Close`. -/
def poolClose (s : Server κ) (i : Nat) (c : Connection) : Server κ :=
  { s with pool := s.pool.erase i }.setConnection i c.close

/-- The handler of `DoAccept`. -/
def onAccept (s : Server κ) (ok : Bool) : Server κ :=
  if s.acceptor_open = false then { s with accepting := false }
  else if ok then
    { s with accepted := s.accepted + 1, pool := insert s.accepted s.pool }.setConnection s.accepted
      Connection.accepted
  else s

def onRead (reserve : Nat → Bool) (s : Server κ) (i : Nat) (c : Connection) (data timestamp : Bytes) :
    Server κ :=
  let r := (c.takeOp .read).onRead reserve timestamp data
  let s := s.setConnection i r.2
  match r.1 with
  | .waiting | .rejected => s
  | .enqueued => { s with workers := s.workers.push (some i) }
  | .crashed .fuel => { s with io := .stuck }
  | .crashed .lengthError => { s with down := true }

def onWrite (s : Server κ) (i : Nat) (c : Connection) : Server κ :=
  if c.request.isConnectionKeepAlive then s.setConnection i c.start else s.poolClose i c

def onFailure (s : Server κ) (i : Nat) (c : Connection) (aborted : Bool) : Server κ :=
  if aborted then s.setConnection i c else s.poolClose i c

/-- The handler of `DoAwaitStop`, up to where `Stop` waits for the workers. -/
def onSignal (s : Server κ) : Server κ :=
  { s with
    acceptor_open := false
    awaiting := false
    workers := s.workers.clear.push none
    io := .joining }

/-- The rest of that handler, with `ConnectionPool::CloseAll`. -/
def afterStop (s : Server κ) : Server κ :=
  { s with
    connections := fun i => if i ∈ s.pool then (s.connections i).map Connection.close else s.connections i
    pool := ∅
    io := .running }

variable (reserve : Nat → Bool) (handler : Int → Request → Except Fault Response)

/-- `HandleConnection` of worker `k`, which has taken connection `i`, up to where `SendResponse` has begun
the write: from there on the worker does nothing with the connection. -/
def onHandle (s : Server κ) (k : κ) (i : Nat) (uninitialised : Int) (timestamp : Bytes) :
    Option (Server κ) :=
  match s.connections i with
  | none => none
  | some c =>
    match handler uninitialised c.request with
    | .error _ => some { s with down := true }
    | .ok response =>
      some ({ s with workers := s.workers.finish k }.setConnection i
        (c.sendResponse timestamp response))

def step (s : Server κ) (e : Event κ) : Option (Server κ) :=
  if s.down then none
  else
    match e with
    | .accept ok => if s.io = .running ∧ s.accepting then some (s.onAccept ok) else none
    | .read i data timestamp =>
      match s.connections i with
      | some c =>
        if s.io = .running ∧ Op.read ∈ c.ops then some (s.onRead reserve i c data timestamp) else none
      | none => none
    | .readFailed i aborted =>
      match s.connections i with
      | some c =>
        if s.io = .running ∧ Op.read ∈ c.ops then some (s.onFailure i (c.takeOp .read) aborted)
        else none
      | none => none
    | .written i =>
      match s.connections i with
      | some c =>
        match c.writing with
        | some op => if s.io = .running then some (s.onWrite i (c.takeOp op)) else none
        | none => none
      | none => none
    | .writeFailed i aborted =>
      match s.connections i with
      | some c =>
        match c.writing with
        | some op => if s.io = .running then some (s.onFailure i (c.takeOp op) aborted) else none
        | none => none
      | none => none
    | .signal => if s.io = .running ∧ s.awaiting then some s.onSignal else none
    | .stopped =>
      if s.io = .joining ∧ ∀ k, s.workers.state k = .stopped then some s.afterStop else none
    | .pop k => (s.workers.pop k).map fun workers => { s with workers := workers }
    | .handle k uninitialised timestamp =>
      match s.workers.state k with
      | .busy i => s.onHandle handler k i uninitialised timestamp
      | _ => none
    | .leave k => (s.workers.leave k).map fun workers => { s with workers := workers }

end Server

end FaceDetection.Webcc

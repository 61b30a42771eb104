import FaceDetection.Webcc.Resume

/-!
# A connection

`connection.cc`. `ops` are the asynchronous operations that have begun and whose handler has not run.
What a connection asks of the pool and of the request handler is told beside it.
-/

namespace FaceDetection.Webcc

inductive Op where
  | read
  | write (payload : Bytes)
  deriving DecidableEq

structure Connection where
  requestParser : RequestParser
  response : Option Response
  ops : List Op
  closed : Bool

namespace Connection

/-- The parser and the connection know one request object. -/
def request (c : Connection) : Request := c.requestParser.message

def doRead (c : Connection) : Connection := { c with ops := c.ops ++ [.read] }

def start (c : Connection) : Connection :=
  { c with requestParser := RequestParser.fresh c.requestParser.derived }.doRead

/-- A new connection, which the pool starts. -/
def accepted : Connection :=
  start { requestParser := RequestParser.fresh .start, response := none, ops := [], closed := false }

def close (c : Connection) : Connection := { c with closed := true }

/-- `SendResponse` with `DoWrite`. -/
def sendResponse (timestamp : Bytes) (response : Response) (c : Connection) : Connection :=
  let value := if c.request.isConnectionKeepAlive then ascii "Keep-Alive" else ascii "Close"
  let prepared := { response with
    toMessage := response.toMessage.setHeader kConnection value }.prepare timestamp
  { c with response := some prepared.1, ops := c.ops ++ [.write prepared.2] }

/-- What `OnRead` leads to. After a crash the parser is not looked at again. -/
inductive AfterRead where
  | waiting
  | enqueued
  | rejected
  | crashed (e : Crash)

/-- `OnRead` without an error. -/
def onRead (reserve : Nat → Bool) (timestamp data : Bytes) (c : Connection) :
    AfterRead × Connection :=
  match RequestParser.parse reserve c.requestParser data with
  | .error e => (.crashed e, c)
  | .ok r =>
    let c := { c with requestParser := r.2 }
    if r.1 = false then (.rejected, c.sendResponse timestamp (Response.new 400))
    else if r.2.finished = false then (.waiting, c.doRead)
    else (.enqueued, c)

/-- `OnWrite` without an error. -/
def onWrite (c : Connection) : Connection :=
  if c.request.isConnectionKeepAlive then c.start else c.close

/-! ## Operations that end -/

def takeOp (op : Op) (c : Connection) : Connection := { c with ops := c.ops.erase op }

/-- The write that is under way. -/
def writing (c : Connection) : Option Op := c.ops.find? (· ≠ .read)

end Connection

end FaceDetection.Webcc

import FaceDetection.Post
import FaceDetection.Webcc.Connection
import FaceDetection.Webcc.Delivery
import FaceDetection.Webcc.Handler
import FaceDetection.Webcc.ResponseParser
import FaceDetection.Webcc.Wire

/-!
# An answer on the wire

`serve` says what the server is for: a method, a path and a body have a status and a content. The
bytes that go over the wire come to just that, in whatever reads either side gets them.
-/

open FaceDetection.Delimited FaceDetection.Json FaceDetection.Pieces

namespace FaceDetection.Webcc

variable {Double Mat : Type}

/-! ## What the server is for -/

/-- A response as the handler makes it. -/
structure Made (response : Response) : Prop where
  start_line : response.start_line = []
  headers : response.headers.entries = if response.content = [] then []
    else [(kContentType, ascii "application/json;charset=utf-8"),
      (kContentLength, uintToString response.content.length)]

variable (libc : LibC Double) (cv : OpenCV Mat) (regex : Regex) (uninitialised : Int)
  (request : Request)

namespace RequestParser

variable {reserve : Nat → Bool} {method target : Bytes} {m : Message}

end RequestParser

/-! ## The response on the wire -/

/-- The headers that `SendResponse` and `Response::Prepare` add. -/
def sendHeaders (keepAlive : Bool) (timestamp : Bytes) : List Header :=
  [(kConnection, if keepAlive then ascii "Keep-Alive" else ascii "Close"),
    (kServer, Response.userAgent), (kDate, timestamp)]

/-- The response as it is written. -/
def Connection.prepared (c : Connection) (timestamp : Bytes) (response : Response) : Message where
  start_line := statusString response.status
  content := response.content
  content_type := response.content_type
  content_length := response.content_length
  headers := response.headers.setAll (sendHeaders c.request.isConnectionKeepAlive timestamp)

/-- The headers of a response in the order they are written. -/
theorem Made.entries {response : Response} (h : Made response) (keepAlive : Bool)
    (timestamp : Bytes) :
    (response.headers.setAll (sendHeaders keepAlive timestamp)).entries =
      response.headers.entries ++ sendHeaders keepAlive timestamp := by
  apply Store.entries_setAll
  rw [h.headers]
  split_ifs
  · change [upper kConnection, upper kServer, upper kDate].Nodup
    decide
  · change [upper kContentType, upper kContentLength, upper kConnection, upper kServer,
      upper kDate].Nodup
    decide

variable {reserve : Nat → Bool} {timestamp : Bytes} {response : Response}

namespace ResponseParser

/-- The reads of a response one after the other. -/
def readAll (reserve : Nat → Bool) (reads : List Bytes) :
    Outcome ResponseParser (Failure Response Unit) × List Bytes :=
  feedAll (fun p data => Parser.outcome (parse reserve p data)) fresh reads

end ResponseParser

/-! ## There and back -/

end FaceDetection.Webcc

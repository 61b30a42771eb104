import FaceDetection.Webcc.Common
import FaceDetection.Webcc.Url

/-!
# Messages

`message.cc`, `request.cc` and `response.cc`. A payload is a list of buffers in the source; here it is
their bytes. What the program takes from outside is an argument: the boundary, and the time.
-/

namespace FaceDetection.Webcc

structure Message where
  start_line : Bytes
  content : Bytes
  content_type : ContentType
  content_length : Nat
  headers : Headers

def Message.new : Message :=
  { start_line := [], content := [], content_type := .empty, content_length := kInvalidLength,
    headers := Store.empty }

namespace Message

def setHeader (m : Message) (key value : Bytes) : Message :=
  { m with headers := m.headers.set key value }

/-- Keep-alive is the default. -/
def isConnectionKeepAlive (m : Message) : Bool :=
  match m.headers.get? kConnection with
  | none => true
  | some connection => iequals connection (ascii "Keep-Alive")

def setContentLength (m : Message) (content_length : Nat) : Message :=
  { m with content_length := content_length }.setHeader kContentLength (uintToString content_length)

def setContent (m : Message) (content : Bytes) (set_length : Bool) : Message :=
  let m := { m with content := content }
  if set_length then m.setContentLength content.length else m

/-- `Message::Prepare`. -/
def payload (m : Message) : Bytes :=
  m.start_line ++ kCRLF ++ headerLines m.headers.entries ++ kCRLF ++ m.content

end Message

/-- `Request` and `Response` are messages. -/
class IsMessage (M : Type) where
  message : M → Message
  withMessage : M → Message → M
  message_withMessage : ∀ m x, message (withMessage m x) = x
  withMessage_withMessage : ∀ m x y, withMessage (withMessage m x) y = withMessage m y
  withMessage_message : ∀ m, withMessage m (message m) = m

/-! ## Requests -/

structure Request extends Message where
  method : Bytes
  url : Url
  form_parts : List FormPart
  boundary : Bytes

instance : IsMessage Request where
  message r := r.toMessage
  withMessage r m := { r with toMessage := m }
  message_withMessage _ _ := rfl
  withMessage_withMessage _ _ _ := rfl
  withMessage_message _ := rfl

namespace Request

def new : Request :=
  { toMessage := Message.new, method := [], url := .clear, form_parts := [], boundary := [] }

/-- `CreateStartLine`: `none` when it throws, because there is no host. -/
def createStartLine (r : Request) : Option Request :=
  if r.start_line ≠ [] then some r
  else if r.url.host = [] then none
  else
    let target := ascii "/" ++ r.url.path
    let target := if r.url.query ≠ [] then target ++ ascii "?" ++ r.url.query else target
    some { r with start_line := r.method ++ ascii " " ++ target ++ ascii " HTTP/1.1" }

/-- The content of a form. -/
def formPayload (boundary : Bytes) (form_parts : List FormPart) : Bytes :=
  (form_parts.flatMap fun part => ascii "--" ++ boundary ++ kCRLF ++ part.prepare.2) ++
    ascii "--" ++ boundary ++ ascii "--" ++ kCRLF

/-- `Request::Prepare`: the request, and its payload. `uuid` is what `RandomUuid` returns. -/
def prepare (uuid : Bytes) (r : Request) : Option (Request × Bytes) := do
  let r ← r.createStartLine
  let host := if r.url.port = [] then r.url.host else r.url.host ++ ascii ":" ++ r.url.port
  let r := { r with toMessage := r.toMessage.setHeader kHost host }
  if r.form_parts = [] then return (r, r.payload)
  let boundary := if r.boundary = [] then uuid else r.boundary
  let data_payload := formPayload boundary r.form_parts
  let m := (r.toMessage.setHeader kContentType (ascii "multipart/form-data; boundary=" ++ boundary))
    |>.setContentLength data_payload.length
  let form_parts := r.form_parts.map fun part => part.prepare.1
  return ({ r with toMessage := m, boundary := boundary, form_parts := form_parts },
    m.payload ++ data_payload)

end Request

/-! ## Responses -/

structure Response extends Message where
  status : Int

instance : IsMessage Response where
  message r := r.toMessage
  withMessage r m := { r with toMessage := m }
  message_withMessage _ _ := rfl
  withMessage_withMessage _ _ _ := rfl
  withMessage_message _ := rfl

/-- `status_strings::ToString`. -/
def statusString (status : Int) : Bytes :=
  if status = 200 then ascii "HTTP/1.1 200 OK"
  else if status = 201 then ascii "HTTP/1.1 201 Created"
  else if status = 202 then ascii "HTTP/1.1 202 Accepted"
  else if status = 204 then ascii "HTTP/1.1 204 No Content"
  else if status = 304 then ascii "HTTP/1.1 304 Not Modified"
  else if status = 400 then ascii "HTTP/1.1 400 Bad Request"
  else if status = 404 then ascii "HTTP/1.1 404 Not Found"
  else if status = 500 then ascii "HTTP/1.1 500 Internal Server Error"
  else if status = 501 then ascii "HTTP/1.1 501 Not Implemented"
  else if status = 503 then ascii "HTTP/1.1 503 Service Unavailable"
  else ascii "HTTP/1.1 501 Not Implemented"

namespace Response

def new (status : Int) : Response := { toMessage := Message.new, status := status }

def userAgent : Bytes := ascii "Webcc/0.1.0"

/-- `Response::Prepare`: the response, and its payload. `timestamp` is the time in words. -/
def prepare (timestamp : Bytes) (r : Response) : Response × Bytes :=
  let m := if r.start_line = [] then { r.toMessage with start_line := statusString r.status }
    else r.toMessage
  let m := (m.setHeader kServer userAgent).setHeader kDate timestamp
  ({ r with toMessage := m }, m.payload)

end Response

end FaceDetection.Webcc

import FaceDetection.Store
import FaceDetection.Webcc.Utility

/-!
# Headers, content types and form parts

`common.cc`. A `Headers` object keeps one entry under each name, whatever the case of its letters.
-/

open FaceDetection.Delimited

namespace FaceDetection.Webcc

/-! ## Headers -/

abbrev Header := Bytes × Bytes

abbrev Headers := Store upper Bytes

def kHost : Bytes := ascii "Host"
def kDate : Bytes := ascii "Date"
def kContentType : Bytes := ascii "Content-Type"
def kContentLength : Bytes := ascii "Content-Length"
def kContentDisposition : Bytes := ascii "Content-Disposition"
def kConnection : Bytes := ascii "Connection"
def kTransferEncoding : Bytes := ascii "Transfer-Encoding"
def kServer : Bytes := ascii "Server"

/-- The lines of a header block, without the empty line at its end. -/
def headerLines (entries : List Header) : Bytes :=
  entries.flatMap fun h => h.1 ++ ascii ": " ++ h.2 ++ kCRLF

/-! ## Content-Type -/

structure ContentType where
  media_type : Bytes
  additional : Bytes
  multipart : Bool
  deriving DecidableEq

def ContentType.empty : ContentType := { media_type := [], additional := [], multipart := false }

/-- The value that `ParseValue` leaves behind: it stores the value before it looks at the key, and
its answer only decides what is logged. -/
def parseValue (str : Bytes) : Bytes :=
  match split2 str (ch '=') with
  | some p => p.2
  | none => []

def ContentType.init (str : Bytes) : ContentType :=
  let (media_type, other) :=
    match cut [ch ';'] str with
    | some p => (trim p.1, trim p.2)
    | none => (trim str, [])
  { media_type := media_type
    additional := parseValue other
    multipart := media_type = ascii "multipart/form-data" }

/-- With `multipart` the additional text is the boundary, without it the charset. -/
def ContentType.valid (content_type : ContentType) : Bool :=
  if content_type.media_type = [] then false
  else if content_type.multipart then content_type.additional ≠ []
  else true

/-! ## Content-Disposition -/

/-- The loop of `ContentDisposition::Init` over the parts after the first. -/
def dispositionLoop : List Bytes → Bytes × Bytes → Option (Bytes × Bytes)
  | [], names => some names
  | part :: parts, names =>
    match split2 part (ch '=') with
    | none => none
    | some p =>
      if p.1 = ascii "name" then dispositionLoop parts (trimIf (ch '"') p.2, names.2)
      else if p.1 = ascii "filename" then dispositionLoop parts (names.1, trimIf (ch '"') p.2)
      else dispositionLoop parts names

/-- `ContentDisposition`: the name and the file name, or `none` when it is not valid. -/
def contentDisposition (str : Bytes) : Option (Bytes × Bytes) :=
  match str.splitOn (ch ';') with
  | [] => none
  | part :: parts => if part = ascii "form-data" then dispositionLoop parts ([], []) else none

/-! ## Form parts -/

/-- `headers` is only used to prepare the payload. -/
structure FormPart where
  name : Bytes
  file_name : Bytes
  media_type : Bytes
  headers : Headers
  data : Bytes

def FormPart.new : FormPart :=
  { name := [], file_name := [], media_type := [], headers := Store.empty, data := [] }

def FormPart.setHeaders (part : FormPart) : FormPart :=
  let name := if part.name ≠ [] then ascii "; name=\"" ++ part.name ++ ascii "\"" else []
  let file_name :=
    if part.file_name ≠ [] then ascii "; filename=\"" ++ part.file_name ++ ascii "\"" else []
  let headers := part.headers.set kContentDisposition (ascii "form-data" ++ name ++ file_name)
  { part with
    headers := if part.media_type ≠ [] then headers.set kContentType part.media_type else headers }

/-- The part, and what `Prepare` adds to the payload. -/
def FormPart.prepare (part : FormPart) : FormPart × Bytes :=
  let part := if part.headers.entries = [] then part.setHeaders else part
  (part, headerLines part.headers.entries ++ kCRLF ++ part.data ++ kCRLF)

end FaceDetection.Webcc

import FaceDetection.Webcc.HeaderText
import FaceDetection.Webcc.Resume

/-!
# The head of a request

A start line and headers as a client writes them, and where they leave the parser.
-/

open FaceDetection.Delimited FaceDetection.Pieces

namespace FaceDetection.Webcc.RequestParser

variable (reserve : Nat → Bool)

/-- A request line with its method and target, as `ParseStartLine` reads it. -/
structure RequestLine (start_line method target : Bytes) : Prop where
  record : IsRecord kCRLF start_line
  fields : ∃ version, splitCompress (ch ' ') false [] start_line = [method, target, version]

theorem requestLine_post :
    RequestLine (ascii "POST /images HTTP/1.1") (ascii "POST") (ascii "/images") :=
  ⟨by decide, ascii "HTTP/1.1", by decide⟩

/-- The headers of a request: each is read as it was written. -/
structure Readable (es : List Header) : Prop where
  written : ∀ h ∈ es, Written h
  accepted : ∀ h ∈ es, Accepted reserve h

/-- The last Content-Type of a header list. -/
def contentType (es : List Header) : ContentType :=
  ((Store.lookup upper kContentType es.reverse).map ContentType.init).getD .empty

/-- The last Content-Length of a header list. -/
def contentLength (es : List Header) : Option Nat :=
  (Store.lookup upper kContentLength es.reverse).map fun v => (stoul v 10).getD 0

/-- The request that a head announces. -/
def announced (start_line method target : Bytes) (es : List Header) : Request :=
  { Request.new with
    start_line := start_line
    content_type := contentType es
    headers := Store.empty.setAll es
    method := method
    url := Url.init target }

/-- The parser behind the head of a request. -/
def behindHead (derived : FormState) (start_line method target : Bytes) (es : List Header) :
    RequestParser :=
  { Parser.init (announced start_line method target es) derived with
    content_length := (contentLength es).getD kInvalidLength
    content_length_parsed := (contentLength es).isSome
    chunked := announcesChunks es
    start_line_parsed := true
    header_ended := true }

/-- The head of a form of a known length. -/
structure FormHead (start_line method target : Bytes) (es : List Header) : Prop where
  line : RequestLine start_line method target
  headers : Readable reserve es
  plain : announcesChunks es = false
  form : (contentType es).multipart = true
  length : ∃ n, contentLength es = some n ∧ n ≠ kInvalidLength

variable {reserve} {start_line method target : Bytes} {es : List Header}

theorem headers_headText (hline : RequestLine start_line method target)
    (hes : Readable reserve es) (derived : FormState) (s : Bytes) :
    headers reserve (fresh derived) (Parser.headText start_line es ++ s) =
      ((true, behindHead derived start_line method target es), s, true) := by
  obtain ⟨version, hfields⟩ := hline.fields
  have hne : start_line ≠ [] := by
    rintro rfl
    simp [splitCompress] at hfields
  have hmessage : parseStartLine start_line { Request.new with start_line := start_line } =
      some { Request.new with start_line := start_line, method := method, url := Url.init target } := by
    unfold parseStartLine
    rw [hfields]
  have hscan := Parser.scan_headText reserve parseStartLine (p := fresh derived) rfl hline.record hne
    hmessage hes.written hes.accepted s
  unfold headers
  rw [hscan, Parser.applyHeaders_eq]
  simp only [behindHead, announced, contentType, contentLength, announcesChunks, Option.isSome_map]
  rfl

theorem readsHead (hline : RequestLine start_line method target) (hes : Readable reserve es)
    (derived : FormState) :
    Parser.ReadsHead reserve parseStartLine (fresh derived) (Parser.headText start_line es)
      (behindHead derived start_line method target es) where
  waiting := rfl
  headers := rfl
  pending := rfl
  nonempty := by simp [Parser.headText, kCRLF]
  scan := headers_headText hline hes derived

/-! ## What is delivered -/

theorem finish_message (p : RequestParser) :
    p.finish.message =
      if p.content = [] then p.message
      else { p.message with content_length := p.content_length, content := p.content } :=
  Parser.finish_message p

/-- The request as the service gets it, with its content. -/
def delivered (request : Request) (content_length : Nat) (content : Bytes) : Request :=
  if content = [] then request
  else { request with content_length := content_length, content := content }

end FaceDetection.Webcc.RequestParser

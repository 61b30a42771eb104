import FaceDetection.Rounds
import FaceDetection.Webcc.Message

/-!
# The parser

`parser.cc`. A member function that returns `bool` gives its answer beside the parser it leaves.
`M` is the message, `D` what a derived class adds; its virtual functions are arguments. `reserve` says
for which sizes `std::string::reserve` does not throw. Content is never compressed, as gzip is off.
-/

open FaceDetection.Delimited

namespace FaceDetection.Webcc

/-- How a call leaves without returning. `fuel` is a loop of the model that used up its rounds. -/
inductive Crash where
  | lengthError
  | fuel
  deriving DecidableEq, Repr

structure Parser (M D : Type) where
  message : M
  pending_data : Bytes
  content_length : Nat
  content : Bytes
  start_line_parsed : Bool
  content_length_parsed : Bool
  header_ended : Bool
  chunked : Bool
  chunk_size : Nat
  finished : Bool
  derived : D

namespace Parser

variable {M D : Type} [IsMessage M]

/-- `Init`: everything is reset but what the derived class adds. -/
def init (message : M) (derived : D) : Parser M D where
  message := message
  pending_data := []
  content_length := kInvalidLength
  content := []
  start_line_parsed := false
  content_length_parsed := false
  header_ended := false
  chunked := false
  chunk_size := kInvalidLength
  finished := false
  derived := derived

/-- The base part of the message. -/
def base (p : Parser M D) : Message := IsMessage.message p.message

/-- A call on the base part of the message. -/
def onMessage (p : Parser M D) (f : Message → Message) : Parser M D :=
  { p with message := IsMessage.withMessage p.message (f p.base) }

/-! ## Headers -/

def parseHeaderLine (reserve : Nat → Bool) (p : Parser M D) (line : Bytes) : Bool × Parser M D :=
  match split2 line (ch ':') with
  | none => (false, p)
  | some header =>
    if iequals header.1 kContentLength then
      let p := { p with content_length_parsed := true }
      match stoul header.2 10 with
      | none => (false, p)
      | some n =>
        let p := { p with content_length := n }
        if reserve n then (true, p.onMessage fun m => m.setHeader header.1 header.2) else (false, p)
    else if iequals header.1 kContentType then
      let content_type := ContentType.init header.2
      if content_type.valid then
        (true, p.onMessage fun m =>
          { m with content_type := content_type }.setHeader header.1 header.2)
      else (false, p)
    else if iequals header.1 kTransferEncoding then
      let p := if header.2 = ascii "chunked" then { p with chunked := true } else p
      (true, p.onMessage fun m => m.setHeader header.1 header.2)
    else (true, p.onMessage fun m => m.setHeader header.1 header.2)

/-- One round of the loop of `ParseHeaders`: the answer so far, the parser, and whether the loop
ends. -/
def headerStep (reserve : Nat → Bool) (parseStartLine : Bytes → M → Option M)
    (st : Bool × Parser M D) (line : Bytes) : (Bool × Parser M D) × Bool :=
  let p := st.2
  if line = [] then ((true, { p with header_ended := true }), true)
  else if p.start_line_parsed then
    let r := p.parseHeaderLine reserve line
    (r, !r.1)
  else
    let p := { p with start_line_parsed := true }.onMessage fun m => { m with start_line := line }
    match parseStartLine line p.message with
    | none => ((false, p), true)
    | some message => ((true, { p with message := message }), false)

/-- The lines are erased only when all of them are right. -/
def parseHeaders (reserve : Nat → Bool) (parseStartLine : Bytes → M → Option M)
    (p : Parser M D) : Bool × Parser M D :=
  let r := scan kCRLF (headerStep reserve parseStartLine) (true, p) p.pending_data
  if r.1.1 then (true, { r.1.2 with pending_data := r.2.1 }) else (false, r.1.2)

/-- `Parse`. -/
def parse (reserve : Nat → Bool) (parseStartLine : Bytes → M → Option M)
    (parseContent : Parser M D → Bytes → Except Crash (Bool × Parser M D))
    (p : Parser M D) (data : Bytes) : Except Crash (Bool × Parser M D) :=
  if p.header_ended then parseContent p data
  else
    let r := parseHeaders reserve parseStartLine { p with pending_data := p.pending_data ++ data }
    if r.1 = false ∨ r.2.header_ended = false then .ok r
    else parseContent r.2 []

/-! ## Content -/

def finish (p : Parser M D) : Parser M D :=
  let p := { p with finished := true }
  if p.content = [] then p
  else
    { p.onMessage (fun m => { m with content_length := p.content_length }.setContent p.content false)
      with content := [] }

/-- `AppendContent` with a count. A count beyond the data comes from the sum in `chunkedRound` when it
wraps around; it is then beyond `max_size`, and `std::string::append` throws. -/
def appendContent (p : Parser M D) (data : Bytes) (count : Nat) : Except Crash (Parser M D) :=
  if count ≤ data.length then .ok { p with content := p.content ++ data.take count }
  else .error .lengthError

def parseFixedContent (p : Parser M D) (data : Bytes) : Bool × Parser M D :=
  if p.content_length_parsed = false then (true, p.finish)
  else if p.content_length = kInvalidLength then (false, p)
  else
    let p := { p with content := p.content ++ p.pending_data ++ data, pending_data := [] }
    if p.content_length ≤ p.content.length then (true, p.finish) else (true, p)

/-! ## Chunks -/

/-- What stands before the first blank of a chunk-size line. -/
def hexStr (line : Bytes) : Bytes :=
  match cut [ch ' '] line with
  | some p => p.1
  | none => line

def parseChunkSize (p : Parser M D) : Bool × Parser M D :=
  match cut kCRLF p.pending_data with
  | none => (true, p)
  | some c =>
    let p := { p with pending_data := c.2 }
    match stoul (hexStr c.1) 16 with
    | none => (false, p)
    | some n => (true, { p with chunk_size := n })

/-- One round of the loop of `ParseChunkedContent`. The sum of the chunk size and two wraps around. -/
def chunkedRound (p : Parser M D) : Round (Parser M D) (Except Crash (Bool × Parser M D)) :=
  let r := if p.chunk_size = kInvalidLength then p.parseChunkSize else (true, p)
  if r.1 = false then .leave (.ok r)
  else
    let p := r.2
    if p.chunk_size = 0 then .leave (.ok (true, p.finish))
    else if (p.chunk_size + 2) % 2 ^ 64 ≤ p.pending_data.length then
      match p.appendContent p.pending_data p.chunk_size with
      | .error e => .leave (.error e)
      | .ok p => .again { p with
          pending_data := p.pending_data.drop ((p.chunk_size + 2) % 2 ^ 64)
          chunk_size := kInvalidLength }
    else if p.pending_data.length < p.chunk_size then
      .leave (.ok (true, { p with
        content := p.content ++ p.pending_data
        chunk_size := p.chunk_size - p.pending_data.length
        pending_data := [] }))
    else .leave (.ok (true, p))

/-- Every round but the first and the last takes something off the pending data. -/
def parseChunkedContent (p : Parser M D) (data : Bytes) : Except Crash (Bool × Parser M D) :=
  let p := { p with pending_data := p.pending_data ++ data }
  (rounds chunkedRound (p.pending_data.length + 2) p).getD (.error .fuel)

end Parser

end FaceDetection.Webcc

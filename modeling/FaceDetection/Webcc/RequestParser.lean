import FaceDetection.Webcc.Parser

/-!
# The request parser

`request_parser.cc`. The step of a form and the part it is at belong to the derived parser, and
`Init` does not reset them.
-/

open FaceDetection.Delimited

namespace FaceDetection.Webcc

inductive Step where
  | kStart
  | kBoundaryParsed
  | kHeadersParsed
  | kEnded
  deriving DecidableEq, Repr

/-- The members that `RequestParser` adds. -/
structure FormState where
  step : Step
  part : Option FormPart

def FormState.start : FormState := { step := .kStart, part := none }

abbrev RequestParser := Parser Request FormState

namespace RequestParser

def parseStartLine (line : Bytes) (request : Request) : Option Request :=
  match splitCompress (ch ' ') false [] line with
  | [method, url, _] => some { request with method := method, url := Url.init url }
  | _ => none

/-! ## Boundaries -/

/-- `strncmp(a, b, n) == 0`: a zero ends both strings. -/
def strncmpEq : Nat → Bytes → Bytes → Bool
  | 0, _, _ => true
  | n + 1, a, b => a.headD 0 = b.headD 0 && (a.headD 0 = 0 || strncmpEq n a.tail b.tail)

/-- Whether the line is a boundary, and whether `IsBoundary` sets `*end`: it does so before it
compares the boundary. -/
def isBoundary (boundary line : Bytes) : Bool × Bool :=
  if line.length ≠ boundary.length + 2 ∧ line.length ≠ boundary.length + 4 then (false, false)
  else if line.getD 0 0 ≠ ch '-' ∨ line.getD 1 0 ≠ ch '-' then (false, false)
  else if line.length = boundary.length + 4 then
    if line.getD (line.length - 1) 0 ≠ ch '-' ∨ line.getD (line.length - 2) 0 ≠ ch '-' then
      (false, false)
    else (strncmpEq boundary.length boundary (line.drop 2), true)
  else (strncmpEq boundary.length boundary (line.drop 2), false)

/-- A line: where it starts, its length, and whether an end boundary has been seen up to it. -/
structure BoundaryLine where
  off : Nat
  count : Nat
  ended : Bool
  deriving DecidableEq

/-- One round of the loop of `GetNextBoundaryLine`. -/
def boundaryStep (boundary : Bytes) (st : BoundaryLine) (line : Bytes) : BoundaryLine × Bool :=
  if line = [] then ({ st with off := st.off + 2 }, false)
  else
    let r := isBoundary boundary line
    let ended := st.ended || r.2
    if r.1 then ({ off := st.off, count := line.length, ended := ended }, true)
    else ({ off := st.off + line.length + 2, count := 0, ended := ended }, false)

def getNextBoundaryLine (boundary pending_data : Bytes) : Option BoundaryLine :=
  let r := scan kCRLF (boundaryStep boundary) { off := 0, count := 0, ended := false } pending_data
  if r.2.2 then some r.1 else none

/-! ## Part headers -/

/-- One round of the loop of `ParsePartHeaders`. -/
def partHeaderStep (st : Bool × FormPart) (line : Bytes) : (Bool × FormPart) × Bool :=
  if line = [] then ((true, st.2), true)
  else
    match split2 line (ch ':') with
    | none => ((false, st.2), true)
    | some header =>
      if iequals header.1 kContentDisposition then
        match contentDisposition header.2 with
        | none => ((false, st.2), true)
        | some names => ((true, { st.2 with name := names.1, file_name := names.2 }), false)
      else ((true, st.2), false)

/-! ## The form -/

def setForm (p : RequestParser) (step : Step) (part : Option FormPart) : RequestParser :=
  { p with derived := { step := step, part := part } }

def boundary (p : RequestParser) : Bytes := p.message.content_type.additional

/-- One round of the loop of `ParseMultipartContent`. Nothing in it ends the last step. -/
def multipartRound (p : RequestParser) : Round RequestParser (Bool × RequestParser) :=
  if p.pending_data = [] then .leave (true, p)
  else
    match p.derived.step with
    | .kStart =>
      match cut kCRLF p.pending_data with
      | none => .leave (true, p)
      | some c =>
        let p := { p with pending_data := c.2 }
        if (isBoundary (boundary p) c.1).1 then .again (setForm p .kBoundaryParsed p.derived.part)
        else .leave (false, p)
    | .kBoundaryParsed =>
      let part := p.derived.part.getD FormPart.new
      let r := scan kCRLF partHeaderStep (true, part) p.pending_data
      if r.2.2 then
        if r.1.1 then
          .again (setForm { p with pending_data := r.2.1 } .kHeadersParsed (some r.1.2))
        else .leave (false, setForm p .kBoundaryParsed (some r.1.2))
      else .leave (true, setForm p .kBoundaryParsed (some r.1.2))
    | .kHeadersParsed =>
      match getNextBoundaryLine (boundary p) p.pending_data with
      | none => .leave (true, p)
      | some b =>
        if 2 < b.off then
          let part := p.derived.part.getD FormPart.new
          let part := { part with data := part.data ++ p.pending_data.take (b.off - 2) }
          let p := { p with
            pending_data := p.pending_data.drop (b.off + b.count + 2)
            message := { p.message with form_parts := p.message.form_parts ++ [part] } }
          if b.ended then .leave (true, setForm p .kEnded none)
          else .again (setForm p .kBoundaryParsed none)
        else .leave (false, p)
    | .kEnded => .again p

/-- Every round but the last takes a line off the pending data. -/
def parseMultipartContent (p : RequestParser) (data : Bytes) :
    Except Crash (Bool × RequestParser) := do
  let p := { p with pending_data := p.pending_data ++ data }
  if p.content_length_parsed = false ∨ p.content_length = kInvalidLength then return (false, p)
  match rounds multipartRound (p.pending_data.length + 1) p with
  | none => throw .fuel
  | some r => return if r.1 = true ∧ r.2.derived.step = .kEnded then (true, r.2.finish) else r

def parseContent (p : RequestParser) (data : Bytes) : Except Crash (Bool × RequestParser) :=
  if p.chunked then p.parseChunkedContent data
  else if p.message.content_type.multipart then parseMultipartContent p data
  else .ok (p.parseFixedContent data)

/-- `Parse` of a `RequestParser`. -/
def parse (reserve : Nat → Bool) (p : RequestParser) (data : Bytes) :
    Except Crash (Bool × RequestParser) :=
  Parser.parse reserve parseStartLine parseContent p data

end RequestParser

end FaceDetection.Webcc

import FaceDetection.Webcc.Parser

/-!
# The response parser

`response_parser.cc`. It adds nothing to the parser but the status line, and takes content as the base
class does.
-/

namespace FaceDetection.Webcc

/-- `std::stoi`. -/
def stoi (str : Bytes) : Option Int :=
  let signed := takeSign (trimLeft str)
  let digits := leadingDigits 10 signed.2
  let n : Int := if signed.1 then -(ofDigits 10 digits) else ofDigits 10 digits
  if digits = [] ∨ n < -2 ^ 31 ∨ 2 ^ 31 ≤ n then none else some n

/-- `Parser::ParseContent`. -/
def Parser.parseContent {M D : Type} [IsMessage M] (p : Parser M D) (data : Bytes) :
    Except Crash (Bool × Parser M D) :=
  if p.chunked then p.parseChunkedContent data else .ok (p.parseFixedContent data)

abbrev ResponseParser := Parser Response Unit

namespace ResponseParser

def parseStartLine (line : Bytes) (response : Response) : Option Response :=
  match splitCompress (ch ' ') false [] line with
  | _ :: status_str :: _ :: _ =>
    (stoi status_str).map fun status => { response with status := status }
  | _ => none

/-- `Parse` of a `ResponseParser`. -/
def parse (reserve : Nat → Bool) (p : ResponseParser) (data : Bytes) :
    Except Crash (Bool × ResponseParser) :=
  Parser.parse reserve parseStartLine Parser.parseContent p data

/-- The parser of a `Client` behind `Init`. -/
def fresh : ResponseParser := Parser.init (Response.new 200) ()

end ResponseParser

end FaceDetection.Webcc

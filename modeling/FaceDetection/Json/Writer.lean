import FaceDetection.Json.Value

/-!
# `Json::BuiltStyledStreamWriter`

The writer as `StreamWriterBuilder::setDefaults` configures it: a tab for each level, comment style
`All`, which makes every non-empty array span several lines, and `null` written out. Values carry no
comments here, so the comment writers are left out.
-/

namespace FaceDetection.Json

variable {Double : Type}

/-! ## Strings -/

/-- `char` is signed, so a byte from 0x80 on is below `' '`. -/
def isAnyCharRequiredQuoting (s : Bytes) : Bool :=
  s.any fun c => c = ch '\\' ∨ c = ch '"' ∨ c.toInt8 < 32 ∨ c < 0x80

/-- The code point at the front, and the bytes after the last one it used. The source leaves `s` on
that last byte, and the loop of the caller steps over it. -/
def utf8ToCodepoint : Bytes → Nat × Bytes
  | [] => (0xFFFD, [])
  | s0 :: s =>
    let firstByte := s0.toNat
    if firstByte < 0x80 then (firstByte, s)
    else if firstByte < 0xE0 then
      match s with
      | s1 :: rest =>
        let calculated := ((firstByte &&& 0x1F) <<< 6) ||| (s1.toNat &&& 0x3F)
        (if calculated < 0x80 then 0xFFFD else calculated, rest)
      | _ => (0xFFFD, s)
    else if firstByte < 0xF0 then
      match s with
      | s1 :: s2 :: rest =>
        let calculated :=
          ((firstByte &&& 0x0F) <<< 12) ||| ((s1.toNat &&& 0x3F) <<< 6) ||| (s2.toNat &&& 0x3F)
        (if 0xD800 ≤ calculated ∧ calculated ≤ 0xDFFF then 0xFFFD
          else if calculated < 0x800 then 0xFFFD else calculated, rest)
      | _ => (0xFFFD, s)
    else if firstByte < 0xF8 then
      match s with
      | s1 :: s2 :: s3 :: rest =>
        let calculated :=
          ((firstByte &&& 0x07) <<< 18) ||| ((s1.toNat &&& 0x3F) <<< 12) |||
            ((s2.toNat &&& 0x3F) <<< 6) ||| (s3.toNat &&& 0x3F)
        (if calculated < 0x10000 then 0xFFFD else calculated, rest)
      | _ => (0xFFFD, s)
    else (0xFFFD, s)

/-- A digit of the table `hex2`. -/
def hexDigit (n : Nat) : UInt8 := if n < 10 then UInt8.ofNat (48 + n) else UInt8.ofNat (87 + n)

def toHex16Bit (x : Nat) : Bytes :=
  let hi := (x >>> 8) &&& 0xff
  let lo := x &&& 0xff
  [hexDigit (hi / 16), hexDigit (hi % 16), hexDigit (lo / 16), hexDigit (lo % 16)]

/-- The default case of the switch in `valueToQuotedStringN`. -/
def escapeCodepoint (cp : Nat) : Bytes :=
  if cp < 0x80 ∧ 0x20 ≤ cp then [UInt8.ofNat cp]
  else if cp < 0x10000 then ascii "\\u" ++ toHex16Bit cp
  else
    let cp := cp - 0x10000
    ascii "\\u" ++ toHex16Bit ((cp >>> 10) + 0xD800) ++
      ascii "\\u" ++ toHex16Bit ((cp &&& 0x3FF) + 0xDC00)

/-- The bytes with an escape of their own. -/
def shortEscape (c : UInt8) : Option Bytes :=
  if c = ch '"' then some (ascii "\\\"")
  else if c = ch '\\' then some (ascii "\\\\")
  else if c = 8 then some (ascii "\\b")
  else if c = 12 then some (ascii "\\f")
  else if c = 10 then some (ascii "\\n")
  else if c = 13 then some (ascii "\\r")
  else if c = 9 then some (ascii "\\t")
  else none

/-- The loop of `valueToQuotedStringN`. Every round takes a byte, so the length is enough rounds. -/
def escapeLoop : Nat → Bytes → Bytes
  | 0, _ => []
  | _ + 1, [] => []
  | fuel + 1, c :: rest =>
    match shortEscape c with
    | some e => e ++ escapeLoop fuel rest
    | none =>
      let (cp, rest') := utf8ToCodepoint (c :: rest)
      escapeCodepoint cp ++ escapeLoop fuel rest'

def valueToQuotedStringN (value : Bytes) : Bytes :=
  if !isAnyCharRequiredQuoting value then
    -- A C string: it ends at the first zero byte.
    ascii "\"" ++ value.takeWhile (fun c => c ≠ 0) ++ ascii "\""
  else
    ascii "\"" ++ escapeLoop value.length value ++ ascii "\""

/-! ## The writer

`addChildValues_` is false and `childValues_` empty throughout: only `isMultilineArray` changes
them, and comment style `All` keeps it from being called.
-/

structure Writer where
  sout_ : Bytes
  indentString_ : Bytes
  indented_ : Bool

def indentation_ : Bytes := ascii "\t"

def colonSymbol_ : Bytes := ascii " : "

def pushValue (value : Bytes) (w : Writer) : Writer := { w with sout_ := w.sout_ ++ value }

def writeIndent (w : Writer) : Writer :=
  { w with sout_ := w.sout_ ++ ascii "\n" ++ w.indentString_ }

def writeWithIndent (value : Bytes) (w : Writer) : Writer :=
  let w := if !w.indented_ then writeIndent w else w
  { w with sout_ := w.sout_ ++ value, indented_ := false }

def indent (w : Writer) : Writer := { w with indentString_ := w.indentString_ ++ indentation_ }

def unindent (w : Writer) : Writer :=
  { w with indentString_ := w.indentString_.take (w.indentString_.length - indentation_.length) }

mutual

def writeValue (libc : LibC Double) : Value Double → Writer → Writer
  | .nullValue, w => pushValue (ascii "null") w
  | .intValue int_, w => pushValue (valueToStringInt int_) w
  | .uintValue uint_, w => pushValue (valueToStringUInt uint_) w
  | .realValue real_, w => pushValue (valueToStringReal libc real_) w
  | .stringValue string_, w => pushValue (valueToQuotedStringN string_.val) w
  | .booleanValue bool_, w => pushValue (valueToStringBool bool_) w
  | .arrayValue [], w => pushValue (ascii "[]") w
  | .arrayValue (value :: values), w =>
    writeWithIndent (ascii "]")
      (unindent (writeElements libc (value :: values) (indent (writeWithIndent (ascii "[") w))))
  | .objectValue [], w => pushValue (ascii "\x7b\x7d") w
  | .objectValue (member :: members), w =>
    writeWithIndent (ascii "\x7d")
      (unindent (writeMembers libc (member :: members) (indent (writeWithIndent (ascii "\x7b") w))))

/-- The loop of `writeArrayValue`. -/
def writeElements (libc : LibC Double) : List (Value Double) → Writer → Writer
  | [], w => w
  | value :: values, w =>
    let w := if !w.indented_ then writeIndent w else w
    let w := { writeValue libc value { w with indented_ := true } with indented_ := false }
    match values with
    | [] => w
    | _ :: _ => writeElements libc values (pushValue (ascii ",") w)

/-- The loop of the object case of `writeValue`. -/
def writeMembers (libc : LibC Double) : List (Bytes × Value Double) → Writer → Writer
  | [], w => w
  | (name, value) :: members, w =>
    let w := writeWithIndent (valueToQuotedStringN name) w
    let w := writeValue libc value (pushValue colonSymbol_ w)
    match members with
    | [] => w
    | _ :: _ => writeMembers libc members (pushValue (ascii ",") w)

end

/-- `write` sets `indented_`, so nothing is indented before the root. -/
def writeString (libc : LibC Double) (root : Value Double) : Bytes :=
  (writeValue libc root { sout_ := [], indentString_ := [], indented_ := true }).sout_

end FaceDetection.Json

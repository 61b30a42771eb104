import FaceDetection.Json.Value

/-!
# `Json::OurReader`

The reader as `CharReaderBuilder::setDefaults` configures it, which is how `StringToJson` uses it:
comments are allowed and collected, the stack limit is 1000, and every other feature is off.
Branches that need another feature are left out.
-/

namespace FaceDetection.Json

variable {Double : Type}

/-- A pointer into the document, as the bytes from there up to `end_`. `end_` itself is `[]`. -/
abbrev Location := Bytes

/-- The bytes from one location to a later one. -/
def between (begin_ end_ : Location) : Bytes := begin_.take (begin_.length - end_.length)

inductive TokenType where
  | endOfStream
  | objectBegin
  | objectEnd
  | arrayBegin
  | arrayEnd
  | string
  | number
  | true_
  | false_
  | null
  | arraySeparator
  | memberSeparator
  | comment
  | error
  deriving DecidableEq, Repr

structure Token where
  type_ : TokenType
  start_ : Location
  end_ : Location
  deriving DecidableEq

structure ErrorInfo where
  token_ : Token
  message_ : Bytes

/-- The members of the reader that a parse changes. `lastValue_` is set together with
`lastValueEnd_` and only receives comments, so it needs no field. -/
structure Reader where
  current_ : Location
  lastValueEnd_ : Option Location
  commentsBefore_ : Bytes
  errors_ : List ErrorInfo

def stackLimit : Nat := 1000

/-! ## Characters -/

def getNextChar (r : Reader) : UInt8 × Reader :=
  match r.current_ with
  | [] => (0, r)
  | c :: rest => (c, { r with current_ := rest })

def isSpace (c : UInt8) : Bool := c = ch ' ' ∨ c = ch '\t' ∨ c = ch '\r' ∨ c = ch '\n'

def skipSpaces (r : Reader) : Reader := { r with current_ := r.current_.dropWhile isSpace }

/-- `match`. -/
def matchPattern (pattern : Bytes) (r : Reader) : Bool × Reader :=
  if pattern.isPrefixOf r.current_ then
    (true, { r with current_ := r.current_.drop pattern.length })
  else
    (false, r)

def containsNewLine (begin_ end_ : Location) : Bool :=
  (between begin_ end_).any fun c => c = ch '\n' ∨ c = ch '\r'

/-! ## Comments -/

/-- `Value::setComment`. The value keeps the text, which nothing reads, so only the checks are left. -/
def setComment (comment : Bytes) : Except Fault Unit :=
  let comment := if comment.getLast? = some (ch '\n') then comment.dropLast else comment
  match comment with
  | [] => .error (.logicError "assert json failed")
  | c :: _ =>
    if c = 0 ∨ c = ch '/' then .ok ()
    else .error (.logicError "in Json::Value::setComment(): Comments must start with /")

def normalizeEOL : Bytes → Bytes
  | [] => []
  | [c] => if c = ch '\r' then [ch '\n'] else [c]
  | c :: d :: rest =>
    if c = ch '\r' then
      if d = ch '\n' then ch '\n' :: normalizeEOL rest else ch '\n' :: normalizeEOL (d :: rest)
    else c :: normalizeEOL (d :: rest)

inductive CommentPlacement where
  | commentBefore
  | commentAfterOnSameLine
  deriving DecidableEq

def addComment (begin_ end_ : Location) (placement : CommentPlacement) (r : Reader) :
    Except Fault Reader :=
  let normalized := normalizeEOL (between begin_ end_)
  match placement with
  | .commentAfterOnSameLine => do
    setComment normalized
    .ok r
  | .commentBefore => .ok { r with commentsBefore_ := r.commentsBefore_ ++ normalized }

/-- Where the loop of `readCStyleComment` stops: at the `/` of the first `*/`, or at the last byte. -/
def cStyleCommentStop : Location → Location
  | c :: d :: rest =>
    if c = ch '*' ∧ d = ch '/' then d :: rest else cStyleCommentStop (d :: rest)
  | rest => rest

def readCStyleComment (r : Reader) : Bool × Reader :=
  let (c, r) := getNextChar { r with current_ := cStyleCommentStop r.current_ }
  (c = ch '/', r)

def cppStyleCommentStop : Location → Location
  | [] => []
  | c :: rest =>
    if c = ch '\n' then rest
    else if c = ch '\r' then
      match rest with
      | d :: rest' => if d = ch '\n' then rest' else rest
      | [] => []
    else cppStyleCommentStop rest

def readCppStyleComment (r : Reader) : Bool × Reader :=
  (true, { r with current_ := cppStyleCommentStop r.current_ })

/-- The rest of a comment after its second byte `c`. -/
def readCommentText (c : UInt8) (r : Reader) : Bool × Reader :=
  if c = ch '*' then readCStyleComment r
  else if c = ch '/' then readCppStyleComment r
  else (false, r)

def commentPlacement (commentBegin : Location) (c : UInt8) (r : Reader) : CommentPlacement :=
  match r.lastValueEnd_ with
  | some lastValueEnd =>
    if !containsNewLine lastValueEnd commentBegin ∧
        (c ≠ ch '*' ∨ !containsNewLine commentBegin r.current_) then
      .commentAfterOnSameLine
    else .commentBefore
  | none => .commentBefore

/-- `commentBegin` is `current_ - 1` in the source: the first byte of the token. -/
def readComment (commentBegin : Location) (r : Reader) : Except Fault (Bool × Reader) := do
  let (c, r) := getNextChar r
  let (successful, r) := readCommentText c r
  if !successful then
    return (false, r)
  let r ← addComment commentBegin r.current_ (commentPlacement commentBegin c r) r
  return (true, r)

/-! ## Tokens -/

/-- The loop of `readString`, from after the opening quote: whether it ended at a closing quote, and
where. -/
def stringEnd : Location → Bool × Location
  | [] => (false, [])
  | [c] => (c = ch '"', [])
  | c :: d :: rest =>
    if c = ch '\\' then stringEnd rest
    else if c = ch '"' then (true, d :: rest)
    else stringEnd (d :: rest)

def readString (r : Reader) : Bool × Reader :=
  let (ok, rest) := stringEnd r.current_
  (ok, { r with current_ := rest })

def skipFraction : Location → Location
  | [] => []
  | c :: rest => if c = ch '.' then rest.dropWhile isDigit else c :: rest

def skipSign : Location → Location
  | [] => []
  | c :: rest => if c = ch '+' ∨ c = ch '-' then rest else c :: rest

def skipExponent : Location → Location
  | [] => []
  | c :: rest =>
    if c = ch 'e' ∨ c = ch 'E' then (skipSign rest).dropWhile isDigit else c :: rest

def readNumber (checkInf : Bool) (r : Reader) : Bool × Reader :=
  if checkInf ∧ r.current_.head? = some (ch 'I') then
    (false, { r with current_ := r.current_.drop 1 })
  else
    (true, { r with current_ := skipExponent (skipFraction (r.current_.dropWhile isDigit)) })

/-- The switch of `readToken` on the first byte `c`, already read: the type of the token, whether it
is complete, and the reader after it. -/
def readTokenBody (start_ : Location) (c : UInt8) (r : Reader) :
    Except Fault (TokenType × Bool × Reader) :=
  if c = ch '{' then .ok (.objectBegin, true, r)
  else if c = ch '}' then .ok (.objectEnd, true, r)
  else if c = ch '[' then .ok (.arrayBegin, true, r)
  else if c = ch ']' then .ok (.arrayEnd, true, r)
  else if c = ch '"' then .ok (.string, readString r)
  -- `'` falls through to `/`, as single quotes are not allowed.
  else if c = ch '\'' ∨ c = ch '/' then (readComment start_ r).map fun p => (.comment, p)
  else if isDigit c then .ok (.number, true, (readNumber false r).2)
  else if c = ch '-' then
    let (ok, r) := readNumber true r
    -- `-I` would be negative infinity, a special float, which is not allowed.
    .ok (.number, ok, r)
  else if c = ch 't' then .ok (.true_, matchPattern (ascii "rue") r)
  else if c = ch 'f' then .ok (.false_, matchPattern (ascii "alse") r)
  else if c = ch 'n' then .ok (.null, matchPattern (ascii "ull") r)
  else if c = ch ',' then .ok (.arraySeparator, true, r)
  else if c = ch ':' then .ok (.memberSeparator, true, r)
  else if c = 0 then .ok (.endOfStream, true, r)
  else .ok (.error, false, r)

/-- The source returns `true` on every path, so no flag is returned here. -/
def readToken (r : Reader) : Except Fault (Token × Reader) := do
  let r := skipSpaces r
  let start_ := r.current_
  let (c, r) := getNextChar r
  let (type_, ok, r) ← readTokenBody start_ c r
  return ({ type_ := if ok then type_ else .error, start_ := start_, end_ := r.current_ }, r)

/-- Reads tokens until one is not a comment. -/
def skipCommentTokensLoop : Nat → Reader → Except Fault (Token × Reader)
  | 0, _ => .error .fuel
  | fuel + 1, r => do
    let (token, r) ← readToken r
    if token.type_ = .comment then skipCommentTokensLoop fuel r
    else return (token, r)

def skipCommentTokens (r : Reader) : Except Fault (Token × Reader) :=
  skipCommentTokensLoop (r.current_.length + 1) r

/-! ## Errors -/

/-- Returns the reader only: the source's result is always `false`. -/
def addError (message : Bytes) (token : Token) (r : Reader) : Reader :=
  { r with errors_ := r.errors_ ++ [{ token_ := token, message_ := message }] }

def recoverLoop (skipUntilToken : TokenType) : Nat → Reader → Except Fault Reader
  | 0, _ => .error .fuel
  | fuel + 1, r => do
    let (skip, r) ← readToken r
    if skip.type_ = skipUntilToken ∨ skip.type_ = .endOfStream then return r
    else recoverLoop skipUntilToken fuel r

def recoverFromError (skipUntilToken : TokenType) (r : Reader) : Except Fault Reader := do
  let r' ← recoverLoop skipUntilToken (r.current_.length + 1) r
  return { r' with errors_ := r'.errors_.take r.errors_.length }

def addErrorAndRecover (message : Bytes) (token : Token) (skipUntilToken : TokenType) (r : Reader) :
    Except Fault Reader :=
  recoverFromError skipUntilToken (addError message token r)

/-! ## Scalars -/

/-- The loop of `decodeNumber`. `none` sends the token to `decodeDouble`. -/
def decodeInteger (maxIntegerValue : Nat) : Bytes → Nat → Option Nat
  | [], value => some value
  | c :: rest, value =>
    if !isDigit c then none
    else
      let digit := c.toNat - 48
      let threshold := maxIntegerValue / 10
      if value ≥ threshold ∧ (value > threshold ∨ rest ≠ [] ∨ digit > maxIntegerValue % 10) then none
      else decodeInteger maxIntegerValue rest (value * 10 + digit)

def decodeDouble (libc : LibC Double) (token : Token) (r : Reader) :
    Option (Value Double) × Reader :=
  let text := between token.start_ token.end_
  match libc.sscanf text with
  | some value => (some (.realValue value), r)
  | none => (none, addError (ascii "'" ++ text ++ ascii "' is not a number.") token r)

/-- `none` is the source's `false`. -/
def decodeNumber (libc : LibC Double) (token : Token) (r : Reader) :
    Option (Value Double) × Reader :=
  let text := between token.start_ token.end_
  let isNegative := text.head? = some (ch '-')
  let digits := if isNegative then text.drop 1 else text
  let maxIntegerValue := if isNegative then 2 ^ 63 else 2 ^ 64 - 1
  match decodeInteger maxIntegerValue digits 0 with
  | none => decodeDouble libc token r
  | some value =>
    if isNegative then (some (.intValue (Int64.ofInt (-value))), r)
    else if value ≤ 2 ^ 31 - 1 then (some (.intValue (Int64.ofInt value)), r)
    else (some (.uintValue (UInt64.ofNat value)), r)

def hexValue (c : UInt8) : Option Nat :=
  if isDigit c then some (c.toNat - 48)
  else if 97 ≤ c ∧ c ≤ 102 then some (c.toNat - 97 + 10)
  else if 65 ≤ c ∧ c ≤ 70 then some (c.toNat - 65 + 10)
  else none

def hexDigits : Nat → Bytes → Nat → Except Bytes (Nat × Bytes)
  | 0, current, unicode => .ok (unicode, current)
  | _ + 1, [], _ =>
    .error (ascii "Bad unicode escape sequence in string: hexadecimal digit expected.")
  | n + 1, c :: current, unicode =>
    match hexValue c with
    | some d => hexDigits n current (unicode * 16 + d)
    | none => .error (ascii "Bad unicode escape sequence in string: hexadecimal digit expected.")

/-- Inside a string token a location is the bytes up to the closing quote. An error is the message
that `addError` gets. -/
def decodeUnicodeEscapeSequence (current : Bytes) : Except Bytes (Nat × Bytes) :=
  if current.length < 4 then
    .error (ascii "Bad unicode escape sequence in string: four digits expected.")
  else hexDigits 4 current 0

def decodeUnicodeCodePoint (current : Bytes) : Except Bytes (Nat × Bytes) := do
  let (unicode, current) ← decodeUnicodeEscapeSequence current
  if 0xD800 ≤ unicode ∧ unicode ≤ 0xDBFF then
    if current.length < 6 then
      throw (ascii "additional six characters expected to parse unicode surrogate pair.")
    if (ascii "\\u").isPrefixOf current then
      let (surrogatePair, current) ← decodeUnicodeEscapeSequence (current.drop 2)
      return (0x10000 + ((unicode &&& 0x3FF) <<< 10) + (surrogatePair &&& 0x3FF), current)
    else
      throw (ascii "expecting another \\u token to begin the second half of a unicode surrogate pair")
  else
    return (unicode, current)

def codePointToUTF8 (cp : Nat) : Bytes :=
  if cp ≤ 0x7f then
    [UInt8.ofNat cp]
  else if cp ≤ 0x7FF then
    [UInt8.ofNat (0xC0 ||| (0x1f &&& (cp >>> 6))), UInt8.ofNat (0x80 ||| (0x3f &&& cp))]
  else if cp ≤ 0xFFFF then
    [UInt8.ofNat (0xE0 ||| (0xf &&& (cp >>> 12))), UInt8.ofNat (0x80 ||| (0x3f &&& (cp >>> 6))),
      UInt8.ofNat (0x80 ||| (0x3f &&& cp))]
  else if cp ≤ 0x10FFFF then
    [UInt8.ofNat (0xF0 ||| (0x7 &&& (cp >>> 18))), UInt8.ofNat (0x80 ||| (0x3f &&& (cp >>> 12))),
      UInt8.ofNat (0x80 ||| (0x3f &&& (cp >>> 6))), UInt8.ofNat (0x80 ||| (0x3f &&& cp))]
  else
    []

/-- The one-byte escapes of `decodeString`. -/
def simpleEscape (escape : UInt8) : Option UInt8 :=
  if escape = ch '"' then some (ch '"')
  else if escape = ch '/' then some (ch '/')
  else if escape = ch '\\' then some (ch '\\')
  else if escape = ch 'b' then some 8
  else if escape = ch 'f' then some 12
  else if escape = ch 'n' then some 10
  else if escape = ch 'r' then some 13
  else if escape = ch 't' then some 9
  else none

/-- The loop of `decodeString` over the bytes between the quotes. -/
def decodeStringLoop : Nat → Bytes → Bytes → Except Bytes Bytes
  | 0, _, decoded => .ok decoded
  | _ + 1, [], decoded => .ok decoded
  | fuel + 1, c :: current, decoded =>
    if c = ch '"' then .ok decoded
    else if c = ch '\\' then
      match current with
      | [] => .error (ascii "Empty escape sequence in string")
      | escape :: current =>
        if escape = ch 'u' then do
          let (unicode, current) ← decodeUnicodeCodePoint current
          decodeStringLoop fuel current (decoded ++ codePointToUTF8 unicode)
        else
          match simpleEscape escape with
          | some b => decodeStringLoop fuel current (decoded ++ [b])
          | none => .error (ascii "Bad escape sequence in string")
    else decodeStringLoop fuel current (decoded ++ [c])

/-- `decodeString(Token&, String&)`. Every round takes a byte, so the length is enough rounds. -/
def decodeString (token : Token) (r : Reader) : Option Bytes × Reader :=
  let text := ((between token.start_ token.end_).drop 1).dropLast
  match decodeStringLoop text.length text [] with
  | .ok decoded => (some decoded, r)
  | .error message => (none, addError message token r)

/-! ## Values -/

/-- `decodeString(Token&)`: `old` is the value that stays when decoding fails. -/
def decodeStringValue (token : Token) (old : Value Double) (r : Reader) :
    Except Fault (Bool × Value Double × Reader) :=
  match decodeString token r with
  | (some decoded_string, r) => do
    let decoded ← Value.ofString decoded_string
    return (true, decoded, r)
  | (none, r) => return (false, old, r)

def decodeNumberValue (libc : LibC Double) (token : Token) (old : Value Double) (r : Reader) :
    Bool × Value Double × Reader :=
  match decodeNumber libc token r with
  | (some decoded, r) => (true, decoded, r)
  | (none, r) => (false, old, r)

/-- The loop of `readArray`. `readValue` gets the value it overwrites, and `elements` are those
before the one it reads. -/
def readArrayLoop (readValue : Value Double → Reader → Except Fault (Bool × Value Double × Reader)) :
    Nat → List (Value Double) → Reader → Except Fault (Bool × List (Value Double) × Reader)
  | 0, _, _ => .error .fuel
  | fuel + 1, elements, r => do
    -- `index` is an `int`: the element after number `maxInt` would get a negative one.
    if elements.length > 2147483647 then
      throw (.logicError "in Json::Value::operator[](int index): index cannot be negative")
    let (ok, value, r) ← readValue .nullValue r
    let elements := elements ++ [value]
    if !ok then
      let r ← recoverFromError .arrayEnd r
      return (false, elements, r)
    let (currentToken, r) ← skipCommentTokens r
    if currentToken.type_ ≠ .arraySeparator ∧ currentToken.type_ ≠ .arrayEnd then
      let r ← addErrorAndRecover (ascii "Missing ',' or ']' in array declaration") currentToken
        .arrayEnd r
      return (false, elements, r)
    if currentToken.type_ = .arrayEnd then
      return (true, elements, r)
    readArrayLoop readValue fuel elements r

def readArray (readValue : Value Double → Reader → Except Fault (Bool × Value Double × Reader))
    (r : Reader) : Except Fault (Bool × Value Double × Reader) := do
  let r := skipSpaces r
  if r.current_.head? = some (ch ']') then
    let (_, r) ← readToken r
    return (true, .arrayValue [], r)
  let (ok, elements, r) ← readArrayLoop readValue (r.current_.length + 1) [] r
  return (ok, .arrayValue elements, r)

/-- The loop of `readObject`. `name` is the name of the last member, empty at first. -/
def readObjectLoop (readValue : Value Double → Reader → Except Fault (Bool × Value Double × Reader)) :
    Nat → Bytes → List (Bytes × Value Double) → Reader →
      Except Fault (Bool × List (Bytes × Value Double) × Reader)
  | 0, _, _, _ => .error .fuel
  | fuel + 1, name, members, r => do
    let (tokenName, r) ← skipCommentTokens r
    if tokenName.type_ = .objectEnd ∧ name = [] then
      return (true, members, r)
    if tokenName.type_ ≠ .string then
      let r ← addErrorAndRecover (ascii "Missing '\x7d' or object member name") tokenName .objectEnd r
      return (false, members, r)
    match decodeString tokenName r with
    | (none, r) => do
      let r ← recoverFromError .objectEnd r
      return (false, members, r)
    | (some name, r) => do
      let (colon, r) ← readToken r
      if colon.type_ ≠ .memberSeparator then
        let r ← addErrorAndRecover (ascii "Missing ':' after object member name") colon .objectEnd r
        return (false, members, r)
      if name.length ≥ 2 ^ 30 then
        throw (.runtimeError "keylength >= 2^30")
      -- A name read twice gets its old value back, and `readValue` overwrites it in place.
      let (ok, value, r) ← readValue ((findMember name members).getD .nullValue) r
      let members := setMember name value members
      if !ok then
        let r ← recoverFromError .objectEnd r
        return (false, members, r)
      let (comma, r) ← readToken r
      if comma.type_ ≠ .objectEnd ∧ comma.type_ ≠ .arraySeparator ∧ comma.type_ ≠ .comment then
        let r ← addErrorAndRecover (ascii "Missing ',' or '\x7d' in object declaration") comma
          .objectEnd r
        return (false, members, r)
      let (comma, r) ← if comma.type_ = .comment then skipCommentTokens r else pure (comma, r)
      if comma.type_ = .objectEnd then
        return (true, members, r)
      readObjectLoop readValue fuel name members r

def readObject (readValue : Value Double → Reader → Except Fault (Bool × Value Double × Reader))
    (r : Reader) : Except Fault (Bool × Value Double × Reader) := do
  let (ok, members, r) ← readObjectLoop readValue (r.current_.length + 1) [] [] r
  return (ok, .objectValue members, r)

/-- Hands the pending comments to the current value. -/
def takeCommentsBefore (r : Reader) : Except Fault Reader :=
  if r.commentsBefore_ = [] then .ok r
  else do
    setComment r.commentsBefore_
    return { r with commentsBefore_ := [] }

/-- `readValue` under `stackLimit + 1 - levels` nodes: `levels` is what the stack limit leaves. The
value is the current value, `old` before the call. -/
def readValue (libc : LibC Double) : Nat → Value Double → Reader →
    Except Fault (Bool × Value Double × Reader)
  | 0, _, _ => .error (.runtimeError "Exceeded stackLimit in readValue().")
  | levels + 1, old, r => do
    let (token, r) ← skipCommentTokens r
    let r ← takeCommentsBefore r
    let (successful, value, r) ←
      match token.type_ with
      | .objectBegin => readObject (readValue libc levels) r
      | .arrayBegin => readArray (readValue libc levels) r
      | .number => pure (decodeNumberValue libc token old r)
      | .string => decodeStringValue token old r
      | .true_ => pure (true, .booleanValue true, r)
      | .false_ => pure (true, .booleanValue false, r)
      | .null => pure (true, .nullValue, r)
      | _ =>
        return (false, old, addError (ascii "Syntax error: value, object or array expected.") token r)
    return (successful, value, { r with lastValueEnd_ := some r.current_ })

/-- `parse` on a null root: whether it succeeded, and the root. -/
def parse (libc : LibC Double) (doc : Bytes) : Except Fault (Bool × Value Double × Reader) := do
  let r : Reader := { current_ := doc, lastValueEnd_ := none, commentsBefore_ := [], errors_ := [] }
  let (successful, root, r) ← readValue libc stackLimit .nullValue r
  let (_, r) ← skipCommentTokens r
  -- `failIfExtra` and `strictRoot` are off, so what follows the value is not checked.
  if r.commentsBefore_ ≠ [] then
    setComment r.commentsBefore_
  return (successful, root, r)

/-- `parseFromStream` with the defaults of `CharReaderBuilder`: its result, and the root it fills. -/
def parseFromStream (libc : LibC Double) (doc : Bytes) : Except Fault (Bool × Value Double) := do
  let (ok, root, _) ← parse libc doc
  return (ok, root)

end FaceDetection.Json

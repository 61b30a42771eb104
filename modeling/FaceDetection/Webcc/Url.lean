import FaceDetection.Store
import FaceDetection.Webcc.Utility

/-!
# URLs

`url.cc`.
-/

open FaceDetection.Delimited

namespace FaceDetection.Webcc

/-! ## Escapes -/

def hexToDecimal (hex : UInt8) : Option UInt8 :=
  if 48 ≤ hex ∧ hex ≤ 57 then some (hex - 48)
  else if 65 ≤ hex ∧ hex ≤ 70 then some (10 + (hex - 65))
  else if 97 ≤ hex ∧ hex ≤ 102 then some (10 + (hex - 97))
  else none

/-- `Decode`: `none` when it returns false. -/
def decode : Bytes → Option Bytes
  | [] => some []
  | c :: rest =>
    if c = ch '%' then
      match rest with
      | h :: l :: rest =>
        match hexToDecimal h, hexToDecimal l with
        | some h_decimal, some l_decimal =>
          (decode rest).map fun raw => ((h_decimal <<< 4) + l_decimal) :: raw
        | _, _ => none
      | _ => none
    else if 127 < c then none
    else (decode rest).map fun raw => c :: raw

def hexDigits : Bytes := ascii "0123456789ABCDEF"

def encodeImpl (should_encode : UInt8 → Bool) (raw : Bytes) : Bytes :=
  raw.flatMap fun c =>
    if should_encode c then
      [ch '%', hexDigits.getD ((c >>> 4) &&& 0xF).toNat 0, hexDigits.getD (c &&& 0xF).toNat 0]
    else [c]

def isAlphaNumeric (c : UInt8) : Bool :=
  (48 ≤ c ∧ c ≤ 57) ∨ (65 ≤ c ∧ c ≤ 90) ∨ (97 ≤ c ∧ c ≤ 122)

def isUnreserved (c : UInt8) : Bool := isAlphaNumeric c || c ∈ ascii "-._~"

def subDelimiter (c : UInt8) : Bool := c ∈ ascii "!$&'()*+,;="

def isPathChar (c : UInt8) : Bool := isUnreserved c || subDelimiter c || c ∈ ascii "%/:@"

def isQueryChar (c : UInt8) : Bool := isPathChar c || c = ch '?'

def encodeQuery (query : Bytes) : Bytes :=
  encodeImpl (fun c => !isQueryChar c || c = ch '%' || c = ch '+') query

/-! ## Queries -/

/-- `SplitKeyValue`: `none` when it returns false. -/
def splitKeyValue (kv : Bytes) : Option (Bytes × Bytes) :=
  match cut [ch '='] kv with
  | some p => if p.1 = [] then none else some p
  | none => none

abbrev UrlQuery := Store (id : Bytes → Bytes) Bytes

def UrlQuery.parse (str : Bytes) : UrlQuery :=
  if str = [] then Store.empty
  else Store.empty.addAll ((str.splitOn (ch '&')).filterMap splitKeyValue)

def UrlQuery.toString (query : UrlQuery) : Bytes :=
  match query.entries with
  | [] => []
  | e :: es =>
    encodeQuery (es.foldl (fun str e => str ++ ascii "&" ++ (e.1 ++ ascii "=" ++ e.2))
      (e.1 ++ ascii "=" ++ e.2))

/-! ## URLs -/

structure Url where
  scheme : Bytes
  host : Bytes
  port : Bytes
  path : Bytes
  query : Bytes
  deriving DecidableEq

def Url.clear : Url := { scheme := [], host := [], port := [], path := [], query := [] }

/-- A text up to a question mark, and what follows it. -/
def cutQuery (tmp : Bytes) : Bytes × Bytes := (cut [ch '?'] tmp).getD (tmp, [])

/-- `Url::Parse` after `Clear`. -/
def Url.parse (str : Bytes) : Url :=
  let tmp := trimLeft str
  let (scheme, tmp) := (cut (ascii "://") tmp).getD ([], tmp)
  let (host, path, query) :=
    match cut [ch '/'] tmp with
    | some p => (p.1, cutQuery p.2)
    | none => ((cutQuery tmp).1, [], (cutQuery tmp).2)
  let (host, port) := (cut [ch ':'] host).getD (host, [])
  { scheme := scheme, host := host, port := port, path := path, query := query }

/-- `Url::Init`: a text that cannot be decoded is parsed as it is. -/
def Url.init (str : Bytes) : Url :=
  if ch '%' ∈ str then
    match decode str with
    | some decoded => Url.parse decoded
    | none => Url.parse str
  else Url.parse str

def Url.addQuery (url : Url) (key value : Bytes) : Url :=
  { url with
    query := (if url.query = [] then [] else url.query ++ ascii "&") ++ (key ++ ascii "=" ++ value) }

end FaceDetection.Webcc

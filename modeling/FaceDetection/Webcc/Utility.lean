import FaceDetection.Cxx
import FaceDetection.Delimited

/-!
# Strings, as webcc handles them

What webcc takes from Boost and from the C++ library, in the C locale, and `Split2`. A position that
`find` returns is used to cut the string there, so `cut` stands for both.
-/

open FaceDetection.Delimited

namespace FaceDetection.Webcc

def kCRLF : Bytes := [13, 10]

/-- `std::string::npos`. A `size_t` has 64 bits. -/
def kInvalidLength : Nat := 2 ^ 64 - 1

theorem kCRLF_ne_nil : kCRLF ≠ [] := List.cons_ne_nil _ _

/-! ## Boost -/

def isSpace (c : UInt8) : Bool := c = 32 ∨ (9 ≤ c ∧ c ≤ 13)

def trimLeft (s : Bytes) : Bytes := s.dropWhile isSpace

def trim (s : Bytes) : Bytes := (trimLeft s).rdropWhile isSpace

/-- `boost::trim_if` with one character. -/
def trimIf (c : UInt8) (s : Bytes) : Bytes := (s.dropWhile (· = c)).rdropWhile (· = c)

def toUpper (c : UInt8) : UInt8 := if 97 ≤ c ∧ c ≤ 122 then c - 32 else c

/-- What `boost::iequals` compares. -/
def upper (s : Bytes) : Bytes := s.map toUpper

def iequals (a b : Bytes) : Bool := upper a = upper b

/-- `boost::split` at runs of `token`: `piece` is what the current one has so far, `compress` says
that the last character was a token. -/
def splitCompress (token : UInt8) : Bool → Bytes → Bytes → List Bytes
  | _, piece, [] => [piece]
  | compress, piece, c :: rest =>
    if c = token then
      if compress then splitCompress token true piece rest
      else piece :: splitCompress token true [] rest
    else splitCompress token false (piece ++ [c]) rest

/-! ## Numbers -/

/-- The value of a digit, as `strtoul` counts: letters come after the decimal digits. -/
def digitValue (c : UInt8) : Option Nat :=
  if isDigit c then some (c.toNat - 48)
  else if 65 ≤ c ∧ c ≤ 90 then some (c.toNat - 55)
  else if 97 ≤ c ∧ c ≤ 122 then some (c.toNat - 87)
  else none

/-- The digits at the start of a string. -/
def leadingDigits (base : Nat) : Bytes → List Nat
  | [] => []
  | c :: rest =>
    match digitValue c with
    | some n => if n < base then n :: leadingDigits base rest else []
    | none => []

def ofDigits (base : Nat) (digits : List Nat) : Nat := digits.foldl (fun n k => base * n + k) 0

/-- A sign, and what follows it. -/
def takeSign : Bytes → Bool × Bytes
  | c :: rest => if c = ch '-' then (true, rest) else if c = ch '+' then (false, rest) else (false, c :: rest)
  | [] => (false, [])

/-- Base 16 skips `0x` before a digit. -/
def skipPrefix (base : Nat) : Bytes → Bytes
  | c0 :: c1 :: rest =>
    if base = 16 ∧ c0 = ch '0' ∧ (c1 = ch 'x' ∨ c1 = ch 'X') ∧ leadingDigits base rest ≠ [] then rest
    else c0 :: c1 :: rest
  | s => s

/-- `std::stoul`: white space, a sign and digits, and then anything. `none` when it throws. A minus
sign counts from the top of the type. -/
def stoul (str : Bytes) (base : Nat) : Option Nat :=
  let signed := takeSign (trimLeft str)
  let digits := leadingDigits base (skipPrefix base signed.2)
  let n := ofDigits base digits
  if digits = [] ∨ 2 ^ 64 ≤ n then none
  else if signed.1 then some ((2 ^ 64 - n) % 2 ^ 64)
  else some n

/-! ## utility.cc -/

def split2 (str : Bytes) (token : UInt8) : Option (Bytes × Bytes) :=
  (cut [token] str).map fun p => (trim p.1, trim p.2)

end FaceDetection.Webcc

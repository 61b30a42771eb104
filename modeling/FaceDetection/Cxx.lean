import Mathlib

/-!
# Bytes, and what C++ code can do besides returning

Strings of both programs are lists of bytes. A `char` is signed on the target, but the
code compares it with ASCII constants only, where both orders agree.
-/

namespace FaceDetection

abbrev Bytes := List UInt8

/-- The byte of an ASCII character. -/
def ch (c : Char) : UInt8 := UInt8.ofNat c.toNat

def ascii (s : String) : Bytes := s.toList.map ch

/-- How a call leaves without returning. `fuel` is not an exception of the code: it marks a loop
of the model that used up its rounds, and the totality theorems show that none does. -/
inductive Fault where
  | runtimeError (msg : String)
  | logicError (msg : String)
  | cvException (msg : String)
  | fuel
  deriving DecidableEq, Repr

/-- `static_cast<unsigned>(n)` of a size. -/
def toUnsigned (n : Nat) : Nat := n % 2 ^ 32

/-- `(int)n` of a size: the low 32 bits, read as two's complement. -/
def toInt (n : Nat) : Int := (n : Int).bmod (2 ^ 32)

theorem toUnsigned_of_lt (n : Nat) (h : n < 2 ^ 32) : toUnsigned n = n := Nat.mod_eq_of_lt h

theorem toInt_of_lt (n : Nat) (h : n < 2 ^ 31) : toInt n = n := by
  have hn : (n : Int).bmod 4294967296 = n := Int.bmod_eq_of_le (by omega) (by omega)
  exact hn

/-! ## Digits -/

def isDigit (c : UInt8) : Bool := 48 ≤ c ∧ c ≤ 57

/-- `uintToString`: the digits come off the low end and are stored from the back. -/
def uintToString (value : Nat) : Bytes := (Nat.toDigits 10 value).map ch

theorem uintToString_length (value k : Nat) (hk : 0 < k) (h : value < 10 ^ k) :
    (uintToString value).length ≤ k := by
  rw [uintToString, List.length_map]
  exact (Nat.length_toDigits_le_iff (by omega) hk).mpr h

end FaceDetection

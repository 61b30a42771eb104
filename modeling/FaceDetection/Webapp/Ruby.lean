import FaceDetection.Request

/-!
# Ruby values

What `JSON.parse` gives, and the methods of the controller on it. `none` is an exception.
-/

open FaceDetection.Json FaceDetection.Base64

namespace FaceDetection.Webapp

/-- `whole` is `to_i` of a float. An infinite one has none. -/
inductive RubyValue where
  | nil
  | bool (b : Bool)
  | int (n : Int)
  | float (text : Bytes) (whole : Option Int)
  | string (s : Bytes)
  | array (elements : List RubyValue)
  | hash (members : List (Bytes × RubyValue))

/-! ## Strings -/

/-- The characters of `[[:space:]]`. -/
def spaces : List Bytes :=
  [[0x20], [0x09], [0x0A], [0x0B], [0x0C], [0x0D], [0xC2, 0x85], [0xC2, 0xA0], [0xE1, 0x9A, 0x80],
    [0xE2, 0x80, 0xA8], [0xE2, 0x80, 0xA9], [0xE2, 0x80, 0xAF], [0xE2, 0x81, 0x9F],
    [0xE3, 0x80, 0x80]] ++
  (List.range 11).map fun i => [0xE2, 0x80, 0x80 + UInt8.ofNat i]

def blankLoop : Nat → Bytes → Bool
  | _, [] => true
  | 0, _ => false
  | fuel + 1, s =>
    match spaces.find? fun space => space.isPrefixOf s with
    | some space => blankLoop fuel (s.drop space.length)
    | none => false

/-- `blank?` of a string or `nil`. -/
def blank : Option Bytes → Bool
  | none => true
  | some s => blankLoop s.length s

/-- A byte inside a UTF-8 character. -/
def isContinuation (c : UInt8) : Bool := c &&& 0xC0 = 0x80

/-- `String#last`: the last character. -/
def lastChar (s : Bytes) : Bytes := s.drop ((s.rdropWhile isContinuation).length - 1)

/-- The digits from here on, with single underscores between them. -/
def readDigits : Nat → Bytes → Nat
  | value, [] => value
  | value, c :: rest =>
    if isDigit c then readDigits (value * 10 + (c.toNat - 48)) rest
    else if c = ch '_' ∧ (rest.head?.map isDigit) = some true then readDigits value rest
    else value

/-- Drops a leading `0d`. -/
def dropDecimalMark : Bytes → Bytes
  | z :: d :: rest => if z = ch '0' ∧ (d = ch 'd' ∨ d = ch 'D') then rest else z :: d :: rest
  | s => s

def unsignedToI (s : Bytes) : Nat :=
  let digits := dropDecimalMark s
  if digits.head?.map isDigit = some true then readDigits 0 digits else 0

/-- `String#to_i`. -/
def stringToI (s : Bytes) : Int :=
  match s.dropWhile fun c => c = 0x20 ∨ (0x09 ≤ c ∧ c ≤ 0x0D) with
  | c :: rest =>
    if c = ch '-' then -(unsignedToI rest : Int)
    else if c = ch '+' then unsignedToI rest
    else unsignedToI (c :: rest)
  | [] => 0

/-! ## Methods of any value -/

/-- `value[key]` for a string key. -/
def RubyValue.index (key : Bytes) : RubyValue → Option RubyValue
  | .hash members => some ((members.lookup key).getD .nil)
  | .string s => some (if key <:+: s then .string key else .nil)
  | _ => none

/-- `value.size`. An `Integer` has its size in memory, of which the controller only sees that it is
positive. -/
def RubyValue.size : RubyValue → Option Nat
  | .array elements => some elements.length
  | .hash members => some members.length
  | .string s => some (s.filter fun c => !isContinuation c).length
  | .int _ => some 8
  | _ => none

def RubyValue.last : RubyValue → Option RubyValue
  | .array elements => some (elements.getLast?.getD .nil)
  | .string s => some (.string (lastChar s))
  | _ => none

/-- `value.to_s`. The text of an array or a hash comes from `inspect`. -/
def RubyValue.toS (inspect : RubyValue → Bytes) : RubyValue → Bytes
  | .nil => []
  | .bool b => if b then ascii "true" else ascii "false"
  | .int n => decimal n
  | .float text _ => text
  | .string s => s
  | value => inspect value

def RubyValue.toI : RubyValue → Option Int
  | .nil => some 0
  | .int n => some n
  | .float _ whole => whole
  | .string s => some (stringToI s)
  | _ => none

/-! ## Numbers and their texts -/

/-- A text of decimal digits. -/
def Digits (s : Bytes) (n : Nat) : Prop :=
  s ≠ [] ∧ (∀ c ∈ s, isDigit c = true) ∧ digitsValue s 0 = n

theorem digits_uintToString (n : Nat) : Digits (uintToString n) n := by
  refine ⟨?_, isDigit_uintToString n, digitsValue_uintToString n⟩
  intro hnil
  rcases Nat.lt_or_ge n 10 with h | h
  · rw [uintToString_lt n h] at hnil; cases hnil
  · rw [uintToString_ge n h] at hnil; simp at hnil

theorem readDigits_digits (s : Bytes) (hs : ∀ c ∈ s, isDigit c = true) (value : Nat) :
    readDigits value s = digitsValue s value := by
  induction s generalizing value with
  | nil => rfl
  | cons c rest ih =>
    have hc := hs c (by simp)
    unfold readDigits
    rw [if_pos hc, ih fun d hd => hs d (by simp [hd])]
    rfl

theorem dropDecimalMark_digits {s : Bytes} (hs : ∀ c ∈ s, isDigit c = true) :
    dropDecimalMark s = s := by
  unfold dropDecimalMark
  split
  · rename_i z d rest
    have hd := hs d (by simp)
    apply if_neg
    rintro ⟨-, rfl | rfl⟩ <;>
    · revert hd; decide
  · rfl

theorem unsignedToI_digits {s : Bytes} {n : Nat} (h : Digits s n) : unsignedToI s = n := by
  obtain ⟨hne, hall, hvalue⟩ := h
  unfold unsignedToI
  simp only [dropDecimalMark_digits hall]
  cases s with
  | nil => exact absurd rfl hne
  | cons c rest =>
    have hc := hall c (by simp)
    rw [List.head?_cons, Option.map_some, hc, if_pos rfl, readDigits_digits _ hall, hvalue]

/-- `to_i` of a text of digits is its number. -/
theorem stringToI_digits {s : Bytes} {n : Nat} (h : Digits s n) : stringToI s = n := by
  have hsign := unsignedToI_digits h
  obtain ⟨hne, hall, -⟩ := h
  cases s with
  | nil => exact absurd rfl hne
  | cons c rest =>
    have hc := hall c (by simp)
    have hfirst : ∀ c, isDigit c = true →
        ¬ (c = 0x20 ∨ (0x09 ≤ c ∧ c ≤ 0x0D)) ∧ c ≠ ch '-' ∧ c ≠ ch '+' := by
      intro c hc
      unfold isDigit at hc
      grind [ch]
    obtain ⟨hspace, hminus, hplus⟩ := hfirst c hc
    unfold stringToI
    rw [List.dropWhile_cons_of_neg (by simpa using hspace)]
    simp only [hminus, hplus, if_false, hsign]

theorem decimal_natCast (n : Nat) : decimal n = uintToString n := by
  unfold decimal
  rw [if_neg (by omega), Int.toNat_natCast]

/-- Two numbers with the same text are the same. -/
theorem uintToString_injective : Function.Injective uintToString := by
  intro m n h
  rw [← digitsValue_uintToString m, h, digitsValue_uintToString]

/-! ## Base64 with line breaks -/

/-- `n` characters are left in the line. -/
def breakLines : Nat → Bytes → Bytes
  | n, [] => if n = 60 then [] else [ch '\n']
  | 0, c :: rest => ch '\n' :: c :: breakLines 59 rest
  | n + 1, c :: rest => c :: breakLines n rest

/-- `Base64.encode64`: a line break behind every 60 characters and at the end. -/
def encode64 (bin : Bytes) : Bytes := breakLines 60 (encode bin)

theorem filter_breakLines (n : Nat) (s : Bytes) :
    ((breakLines n s).takeWhile (· ≠ ch '=')).filter inAlphabet =
      (s.takeWhile (· ≠ ch '=')).filter inAlphabet := by
  have hbreak : inAlphabet (ch '\n') = false ∧ ch '\n' ≠ ch '=' := by decide
  obtain ⟨halphabet, hne⟩ := hbreak
  induction s generalizing n with
  | nil =>
    unfold breakLines
    split_ifs
    · rfl
    · simp [hne, halphabet]
  | cons c rest ih =>
    cases n with
    | zero =>
      unfold breakLines
      rw [List.takeWhile_cons_of_pos (by simpa using hne), List.filter_cons_of_neg (by simp [halphabet])]
      by_cases hc : c = ch '='
      · simp [hc]
      · rw [List.takeWhile_cons_of_pos (by simpa using hc), List.takeWhile_cons_of_pos (by simpa using hc),
          List.filter_cons, List.filter_cons, ih 59]
    | succ n =>
      unfold breakLines
      by_cases hc : c = ch '='
      · simp [hc]
      · rw [List.takeWhile_cons_of_pos (by simpa using hc), List.takeWhile_cons_of_pos (by simpa using hc),
          List.filter_cons, List.filter_cons, ih n]

theorem straggling_encode (bin : Bytes) : straggling (encode bin) = [] := by
  have hdrop : (encode bin).dropWhile inAlphabet = padding bin.length := by
    rw [encode, List.dropWhile_append_of_pos]
    · rw [padding, List.dropWhile_replicate, inAlphabet_pad]
      simp
    · intro c hc
      obtain ⟨s, hs, rfl⟩ := List.mem_map.mp hc
      exact inAlphabet_charOf s (toSextets_lt bin s hs)
  rw [straggling, hdrop, padding, List.takeWhile_replicate]
  simp

theorem decode64_encode (bin : Bytes) : decode64 (encode bin) = bin := by
  have hsame := (decodePrefix_eq_decodeLenient_iff (encode bin)).mpr (Or.inl (straggling_encode bin))
  unfold decode64
  rw [← hsame, decodePrefix_encode]

/-- The line breaks do not matter to `Base64.decode64`. -/
theorem decode64_encode64 (bin : Bytes) : decode64 (encode64 bin) = bin := by
  have hstraight := decode64_encode bin
  unfold decode64 encode64 decodeLenient at *
  rw [filter_breakLines]
  exact hstraight

end FaceDetection.Webapp

import FaceDetection.Cxx

/-!
# Base64

The bit packing, apart from any alphabet: bytes become sextets three to four, and sextets become
bytes four to three. A sextet is a byte below 64. Then the alphabet, the padded encoding, and two
ways to decode a text that may hold anything: up to the first foreign character, or around them.
-/

namespace FaceDetection.Base64

/-! ## One group -/

def byte0 (s0 s1 : UInt8) : UInt8 := s0 <<< 2 ||| s1 >>> 4
def byte1 (s1 s2 : UInt8) : UInt8 := s1 <<< 4 ||| s2 >>> 2
def byte2 (s2 s3 : UInt8) : UInt8 := s2 <<< 6 ||| s3

def sextet0 (b0 : UInt8) : UInt8 := b0 >>> 2
def sextet1 (b0 b1 : UInt8) : UInt8 := (b0 &&& 3) <<< 4 ||| b1 >>> 4
def sextet2 (b1 b2 : UInt8) : UInt8 := (b1 &&& 15) <<< 2 ||| b2 >>> 6
def sextet3 (b2 : UInt8) : UInt8 := b2 &&& 63

/-! ## Many groups -/

/-- Four sextets to three bytes. A last group of `n` sextets gives `n - 1` bytes. -/
def fromSextets : List UInt8 → Bytes
  | s0 :: s1 :: s2 :: s3 :: rest => byte0 s0 s1 :: byte1 s1 s2 :: byte2 s2 s3 :: fromSextets rest
  | [s0, s1, s2] => [byte0 s0 s1, byte1 s1 s2]
  | [s0, s1] => [byte0 s0 s1]
  | _ => []

/-- Three bytes to four sextets. A last group of `n` bytes gives `n + 1` sextets. -/
def toSextets : Bytes → List UInt8
  | b0 :: b1 :: b2 :: rest => sextet0 b0 :: sextet1 b0 b1 :: sextet2 b1 b2 :: sextet3 b2 :: toSextets rest
  | [b0, b1] => [sextet0 b0, sextet1 b0 b1, sextet2 b1 0]
  | [b0] => [sextet0 b0, sextet1 b0 0]
  | [] => []

theorem byte0_sextets (a b : UInt8) : byte0 (sextet0 a) (sextet1 a b) = a := by
  apply UInt8.eq_of_toBitVec_eq
  simp only [byte0, sextet0, sextet1, UInt8.toBitVec_or, UInt8.toBitVec_shiftLeft,
    UInt8.toBitVec_shiftRight, UInt8.toBitVec_and, UInt8.toBitVec_ofNat]
  ext i hi
  interval_cases i <;> simp

theorem byte1_sextets (a b c : UInt8) : byte1 (sextet1 a b) (sextet2 b c) = b := by
  apply UInt8.eq_of_toBitVec_eq
  simp only [byte1, sextet1, sextet2, UInt8.toBitVec_or, UInt8.toBitVec_shiftLeft,
    UInt8.toBitVec_shiftRight, UInt8.toBitVec_and, UInt8.toBitVec_ofNat]
  ext i hi
  interval_cases i <;> simp

theorem byte2_sextets (b c : UInt8) : byte2 (sextet2 b c) (sextet3 c) = c := by
  apply UInt8.eq_of_toBitVec_eq
  simp only [byte2, sextet2, sextet3, UInt8.toBitVec_or, UInt8.toBitVec_shiftLeft,
    UInt8.toBitVec_shiftRight, UInt8.toBitVec_and, UInt8.toBitVec_ofNat]
  ext i hi
  interval_cases i <;> simp

/-- Packing into sextets loses nothing, whatever the length. -/
theorem fromSextets_toSextets (l : Bytes) : fromSextets (toSextets l) = l := by
  induction l using toSextets.induct with
  | case1 b0 b1 b2 rest ih =>
    rw [toSextets, fromSextets, byte0_sextets, byte1_sextets, byte2_sextets, ih]
  | case2 b0 b1 => rw [toSextets, fromSextets, byte0_sextets, byte1_sextets]
  | case3 b0 => rw [toSextets, fromSextets, byte0_sextets]
  | case4 => rfl

theorem or_lt (x y : UInt8) (hx : x < 64) (hy : y < 64) : x ||| y < 64 := by
  rw [UInt8.lt_iff_toNat_lt] at hx hy ⊢
  rw [UInt8.toNat_or]
  exact Nat.or_lt_two_pow (n := 6) hx hy

theorem and_lt (x : UInt8) {m n : UInt8} (h : m < n) : x &&& m < n := by
  rw [UInt8.lt_iff_toNat_lt] at h ⊢
  rw [UInt8.toNat_and]
  exact lt_of_le_of_lt Nat.and_le_right h

theorem shiftRight_lt (x : UInt8) {k : UInt8} (hlow : 2 ≤ k.toNat) (hhigh : k.toNat < 8) :
    x >>> k < 64 := by
  have hx := x.toNat_lt
  have hfour : 2 ^ 2 ≤ 2 ^ k.toNat := Nat.pow_le_pow_right (by omega) hlow
  have hquotient : x.toNat / 2 ^ k.toNat ≤ x.toNat / 2 ^ 2 := Nat.div_le_div_left hfour (by omega)
  rw [UInt8.lt_iff_toNat_lt, UInt8.toNat_shiftRight, Nat.mod_eq_of_lt hhigh,
    Nat.shiftRight_eq_div_pow]
  apply lt_of_le_of_lt hquotient
  change x.toNat / 2 ^ 2 < 64
  omega

theorem sextet0_lt (a : UInt8) : sextet0 a < 64 := by
  unfold sextet0
  apply shiftRight_lt <;> decide

theorem sextet3_lt (a : UInt8) : sextet3 a < 64 := and_lt a (by decide)

theorem sextet1_lt (a b : UInt8) : sextet1 a b < 64 := by
  unfold sextet1
  apply or_lt
  · have ha : a.toNat &&& 3 ≤ 3 := Nat.and_le_right
    rw [UInt8.lt_iff_toNat_lt]
    simp [Nat.shiftLeft_eq]
    omega
  · apply shiftRight_lt <;> decide

theorem sextet2_lt (a b : UInt8) : sextet2 a b < 64 := by
  unfold sextet2
  apply or_lt
  · have ha : a.toNat &&& 15 ≤ 15 := Nat.and_le_right
    rw [UInt8.lt_iff_toNat_lt]
    simp [Nat.shiftLeft_eq]
    omega
  · apply shiftRight_lt <;> decide

theorem toSextets_lt (l : Bytes) : ∀ s ∈ toSextets l, s < 64 := by
  induction l using toSextets.induct with
  | case1 b0 b1 b2 rest ih =>
    simpa [toSextets, sextet0_lt, sextet1_lt, sextet2_lt, sextet3_lt] using ih
  | case2 b0 b1 => simp [toSextets, sextet0_lt, sextet1_lt, sextet2_lt]
  | case3 b0 => simp [toSextets, sextet0_lt, sextet1_lt]
  | case4 => simp [toSextets]

theorem toSextets_length (l : Bytes) :
    (toSextets l).length = l.length / 3 * 4 + (l.length % 3 + (l.length % 3 + 1) / 2) := by
  induction l using toSextets.induct with
  | case1 b0 b1 b2 rest ih => simp only [toSextets, List.length_cons, ih]; omega
  | case2 | case3 | case4 => simp [toSextets]

theorem fromSextets_length (l : List UInt8) :
    (fromSextets l).length = l.length / 4 * 3 + (l.length % 4 - 1) := by
  induction l using fromSextets.induct with
  | case1 s0 s1 s2 s3 rest ih => simp only [fromSextets, List.length_cons, ih]; omega
  | case2 | case3 => simp [fromSextets]
  | case4 l h4 h3 h2 =>
    -- No sextet, or a single one, which is too short for a byte.
    rcases l with _ | ⟨s0, _ | ⟨s1, _ | ⟨s2, _ | ⟨s3, rest⟩⟩⟩⟩
    · simp [fromSextets]
    · simp [fromSextets]
    · exact absurd rfl (h2 s0 s1)
    · exact absurd rfl (h3 s0 s1 s2)
    · exact absurd rfl (h4 s0 s1 s2 s3 rest)

theorem fromSextets_append (k : Nat) (l t : List UInt8) (h : l.length = 4 * k) :
    fromSextets (l ++ t) = fromSextets l ++ fromSextets t := by
  induction k generalizing l with
  | zero =>
    obtain rfl : l = [] := List.eq_nil_of_length_eq_zero (by omega)
    simp [fromSextets]
  | succ k ih =>
    rcases l with _ | ⟨s0, _ | ⟨s1, _ | ⟨s2, _ | ⟨s3, rest⟩⟩⟩⟩
    all_goals simp only [List.length_cons, List.length_nil] at h
    all_goals try omega
    simp only [List.cons_append, fromSextets, ih rest (by omega)]

/-- More sextets mean more bytes, except for one sextet after whole groups. -/
theorem fromSextets_append_eq_iff (l t : List UInt8) :
    fromSextets (l ++ t) = fromSextets l ↔ t = [] ∨ (l.length % 4 = 0 ∧ t.length = 1) := by
  constructor
  · intro h
    have hlen := congrArg List.length h
    simp only [fromSextets_length, List.length_append] at hlen
    rcases t with _ | ⟨s, t⟩
    · exact Or.inl rfl
    · right
      simp only [List.length_cons] at hlen ⊢
      omega
  · rintro (rfl | ⟨hl, ht⟩)
    · simp
    · obtain ⟨s, rfl⟩ := List.length_eq_one_iff.mp ht
      rw [fromSextets_append (l.length / 4) l [s] (by omega)]
      simp [fromSextets]

/-! ## The alphabet -/

def alphabet : Bytes :=
  ascii "ABCDEFGHIJKLMNOPQRSTUVWXYZabcdefghijklmnopqrstuvwxyz0123456789+/"

theorem alphabet_bytes : alphabet =
    [65, 66, 67, 68, 69, 70, 71, 72, 73, 74, 75, 76, 77, 78, 79, 80, 81, 82, 83, 84, 85, 86, 87, 88,
      89, 90, 97, 98, 99, 100, 101, 102, 103, 104, 105, 106, 107, 108, 109, 110, 111, 112, 113, 114,
      115, 116, 117, 118, 119, 120, 121, 122, 48, 49, 50, 51, 52, 53, 54, 55, 56, 57, 43, 47] := by
  rfl

def inAlphabet (c : UInt8) : Bool := c ∈ alphabet

/-- The place of a character in the alphabet. -/
def sextetOf (c : UInt8) : UInt8 := UInt8.ofNat (alphabet.idxOf c)

def charOf (s : UInt8) : UInt8 := alphabet.getD s.toNat 0

theorem sextetOf_charOf (s : UInt8) (h : s < 64) : sextetOf (charOf s) = s := by
  revert s
  simp only [sextetOf, charOf, alphabet_bytes]
  decide +kernel

theorem inAlphabet_charOf (s : UInt8) (h : s < 64) : inAlphabet (charOf s) = true := by
  revert s
  simp only [inAlphabet, charOf, alphabet_bytes]
  decide +kernel

theorem sextetOf_lt (c : UInt8) (h : inAlphabet c = true) : sextetOf c < 64 := by
  have hidx : alphabet.idxOf c < 64 := by
    have hmem : c ∈ alphabet := by simpa [inAlphabet] using h
    simpa [alphabet_bytes] using List.idxOf_lt_length_iff.mpr hmem
  rw [sextetOf, UInt8.lt_iff_toNat_lt, UInt8.toNat_ofNat']
  exact lt_of_le_of_lt (Nat.mod_le _ _) hidx

theorem inAlphabet_pad : inAlphabet (ch '=') = false := by
  rw [inAlphabet, alphabet_bytes]
  decide

/-! ## Texts -/

/-- Padding to a multiple of four characters. -/
def padding (n : Nat) : Bytes := List.replicate ((3 - n % 3) % 3) (ch '=')

/-- The canonical padded encoding. -/
def encode (b : Bytes) : Bytes := (toSextets b).map charOf ++ padding b.length

/-- Decodes up to the first character that is not in the alphabet. -/
def decodePrefix (s : Bytes) : Bytes := fromSextets ((s.takeWhile inAlphabet).map sextetOf)

/-- The lenient decoder: it skips foreign characters and stops at the first `=`. -/
def decodeLenient (s : Bytes) : Bytes :=
  fromSextets (((s.takeWhile (· ≠ ch '=')).filter inAlphabet).map sextetOf)

theorem encode_length (b : Bytes) : (encode b).length = 4 * ((b.length + 2) / 3) := by
  simp only [encode, padding, List.length_append, List.length_map, toSextets_length,
    List.length_replicate]
  omega

theorem takeWhile_encode (b : Bytes) :
    (encode b).takeWhile inAlphabet = (toSextets b).map charOf := by
  rw [encode, List.takeWhile_append_of_pos]
  · rw [padding, List.takeWhile_replicate, inAlphabet_pad]
    simp
  · intro c hc
    obtain ⟨s, hs, rfl⟩ := List.mem_map.mp hc
    exact inAlphabet_charOf s (toSextets_lt b s hs)

/-- The canonical encoding decodes to the bytes it came from. -/
theorem decodePrefix_encode (b : Bytes) : decodePrefix (encode b) = b := by
  rw [decodePrefix, takeWhile_encode, List.map_map]
  have hmap : (toSextets b).map (sextetOf ∘ charOf) = toSextets b := by
    conv_rhs => rw [← List.map_id (toSextets b)]
    exact List.map_congr_left fun s hs => sextetOf_charOf s (toSextets_lt b s hs)
  rw [hmap, fromSextets_toSextets]

/-- What the lenient decoder reads beyond `decodePrefix`: the characters of the alphabet after the
first foreign one, up to the padding. -/
def straggling (s : Bytes) : Bytes :=
  ((s.dropWhile inAlphabet).takeWhile (· ≠ ch '=')).filter inAlphabet

theorem filter_before_pad (s : Bytes) :
    (s.takeWhile (· ≠ ch '=')).filter inAlphabet = s.takeWhile inAlphabet ++ straggling s := by
  induction s with
  | nil => rfl
  | cons c s ih =>
    by_cases hc : inAlphabet c
    · have hne : c ≠ ch '=' := by
        rintro rfl
        rw [inAlphabet_pad] at hc
        exact Bool.false_ne_true hc
      simp only [straggling] at ih
      simpa [straggling, hc, hne] using ih
    · simp [straggling, hc]

/-- The two decoders agree exactly when nothing straggles, or a single character that starts a
group of its own, which gives no byte. -/
theorem decodePrefix_eq_decodeLenient_iff (s : Bytes) :
    decodePrefix s = decodeLenient s ↔
      straggling s = [] ∨ ((s.takeWhile inAlphabet).length % 4 = 0 ∧ (straggling s).length = 1) := by
  rw [decodePrefix, decodeLenient, filter_before_pad, List.map_append, eq_comm,
    fromSextets_append_eq_iff]
  simp

end FaceDetection.Base64

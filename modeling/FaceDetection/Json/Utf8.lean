import FaceDetection.Json.Reader
import FaceDetection.Json.Writer

/-!
# UTF-8

The reader writes a code point as UTF-8 and the writer reads it back. On the encoding of a character
both do what the encoding says.
-/

namespace FaceDetection.Json

/-! ## Bits of a number -/

theorem and_ones (x n : Nat) : (2 ^ n - 1) &&& x = x % 2 ^ n := by
  rw [Nat.and_comm, Nat.and_two_pow_sub_one_eq_mod]

theorem shiftLeft_or (x y n : Nat) (h : y < 2 ^ n) : (x <<< n) ||| y = x * 2 ^ n + y := by
  rw [← Nat.shiftLeft_add_eq_or_of_lt h, Nat.shiftLeft_eq]

/-- Two groups of six bits behind `x`. -/
theorem shiftLeft_or_or (x y z : Nat) (hy : y < 64) (hz : z < 64) :
    (x <<< 12) ||| (y <<< 6) ||| z = x * 4096 + y * 64 + z := by
  have hxy : (x <<< 12) ||| (y <<< 6) = (x * 64 + y) <<< 6 := by
    rw [shiftLeft_or x (y <<< 6) 12 (by rw [Nat.shiftLeft_eq]; omega), Nat.shiftLeft_eq,
      Nat.shiftLeft_eq]
    omega
  rw [hxy, shiftLeft_or _ z 6 hz]
  omega

theorem tail_byte : ∀ m < 64, 0x80 ||| m = m + 0x80 := by decide

theorem lead_byte_two : ∀ m < 32, 0xC0 ||| m = m + 0xC0 := by decide

theorem lead_byte_three : ∀ m < 16, 0xE0 ||| m = m + 0xE0 := by decide

theorem lead_byte_four : ∀ m < 8, 0xF0 ||| m = m + 0xF0 := by decide

/-! ## Characters -/

theorem val_le (c : Char) : c.val.toNat ≤ 0x10FFFF := by
  have := c.valid
  rcases this with h | h <;> omega

theorem codePointToUTF8_char (c : Char) :
    codePointToUTF8 c.val.toNat = String.utf8EncodeChar c := by
  have hmax := val_le c
  have h1f := fun x => and_ones x 5
  have h3f := fun x => and_ones x 6
  have hf := fun x => and_ones x 4
  have h7 := fun x => and_ones x 3
  simp only [Nat.reducePow, Nat.reduceSub] at h1f h3f hf h7
  unfold codePointToUTF8 String.utf8EncodeChar
  generalize c.val.toNat = v at hmax ⊢
  simp only [Nat.shiftRight_eq_div_pow, h1f, h3f, hf, h7, Nat.reducePow]
  have htail : ∀ x, 0x80 ||| x % 64 = x % 64 + 0x80 := fun x =>
    tail_byte _ (Nat.mod_lt _ (by omega))
  split_ifs
  · rfl
  · rw [htail, lead_byte_two _ (Nat.mod_lt _ (by omega))]
  · rw [htail, htail, lead_byte_three _ (Nat.mod_lt _ (by omega))]
  · rw [htail, htail, htail, lead_byte_four _ (Nat.mod_lt _ (by omega))]

theorem utf8ToCodepoint_char (c : Char) (rest : Bytes) :
    utf8ToCodepoint (String.utf8EncodeChar c ++ rest) = (c.val.toNat, rest) := by
  have hmax := val_le c
  have hvalid := c.valid
  have h1f := fun x => Nat.and_two_pow_sub_one_eq_mod x 5
  have h3f := fun x => Nat.and_two_pow_sub_one_eq_mod x 6
  have hf := fun x => Nat.and_two_pow_sub_one_eq_mod x 4
  have h7 := fun x => Nat.and_two_pow_sub_one_eq_mod x 3
  simp only [Nat.reducePow, Nat.reduceSub] at h1f h3f hf h7
  have hbyte : ∀ x, x < 256 → (UInt8.ofNat x).toNat = x := fun x hx => by
    rw [UInt8.toNat_ofNat', Nat.mod_eq_of_lt hx]
  have hsurrogate : ¬ (0xD800 ≤ c.val.toNat ∧ c.val.toNat ≤ 0xDFFF) := by
    rcases hvalid with h | h <;> omega
  unfold String.utf8EncodeChar
  generalize c.val.toNat = v at hmax hsurrogate ⊢
  simp only
  split_ifs with h1 h2 h3
  · simp only [List.cons_append, List.nil_append, utf8ToCodepoint, hbyte v (by omega)]
    rw [if_pos (by omega)]
  · -- Two bytes.
    simp only [List.cons_append, List.nil_append, utf8ToCodepoint,
      hbyte (v / 64 % 32 + 192) (by omega), hbyte (v % 64 + 128) (by omega), h1f, h3f]
    have hlead : (v / 64 % 32 + 192) % 32 = v / 64 := by omega
    have htail : (v % 64 + 128) % 64 = v % 64 := by omega
    rw [hlead, htail, shiftLeft_or _ _ 6 (by omega), if_neg (by omega), if_pos (by omega),
      if_neg (by omega)]
    congr 1
    omega
  · -- Three bytes.
    simp only [List.cons_append, List.nil_append, utf8ToCodepoint,
      hbyte (v / 4096 % 16 + 224) (by omega), hbyte (v / 64 % 64 + 128) (by omega),
      hbyte (v % 64 + 128) (by omega), hf, h3f]
    have hlead : (v / 4096 % 16 + 224) % 16 = v / 4096 := by omega
    have hmid : (v / 64 % 64 + 128) % 64 = v / 64 % 64 := by omega
    have htail : (v % 64 + 128) % 64 = v % 64 := by omega
    have hval : v / 4096 * 4096 + v / 64 % 64 * 64 + v % 64 = v := by omega
    rw [hlead, hmid, htail, shiftLeft_or_or _ _ _ (by omega) (by omega), hval, if_neg (by omega),
      if_neg (by omega), if_pos (by omega), if_neg hsurrogate, if_neg (by omega)]
  · -- Four bytes.
    simp only [List.cons_append, List.nil_append, utf8ToCodepoint,
      hbyte (v / 262144 % 8 + 240) (by omega), hbyte (v / 4096 % 64 + 128) (by omega),
      hbyte (v / 64 % 64 + 128) (by omega), hbyte (v % 64 + 128) (by omega), h7, h3f]
    have hlead : (v / 262144 % 8 + 240) % 8 = v / 262144 := by omega
    have hfirst : (v / 4096 % 64 + 128) % 64 = v / 4096 % 64 := by omega
    have hmid : (v / 64 % 64 + 128) % 64 = v / 64 % 64 := by omega
    have htail : (v % 64 + 128) % 64 = v % 64 := by omega
    have hhigh : ((v / 262144) <<< 18) ||| ((v / 4096 % 64) <<< 12) = (v / 4096) <<< 12 := by
      rw [shiftLeft_or _ _ 18 (by rw [Nat.shiftLeft_eq]; omega), Nat.shiftLeft_eq, Nat.shiftLeft_eq]
      omega
    have hval : v / 4096 * 4096 + v / 64 % 64 * 64 + v % 64 = v := by omega
    rw [hlead, hfirst, hmid, htail, hhigh, if_neg (by omega), if_neg (by omega), if_neg (by omega),
      if_pos (by omega), shiftLeft_or_or _ _ _ (by omega) (by omega), hval, if_neg (by omega)]

end FaceDetection.Json

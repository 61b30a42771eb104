import FaceDetection.Base64.Spec

/-!
# `base64_decode` computes `decodePrefix`

The decoder of `base64.cpp`, and its loop invariant.
-/

namespace FaceDetection.Base64

/-! ## The source -/

def base64Chars : Bytes :=
  ascii "ABCDEFGHIJKLMNOPQRSTUVWXYZ" ++ ascii "abcdefghijklmnopqrstuvwxyz" ++ ascii "0123456789+/"

/-- `isalnum` in the C locale, or one of the two other characters. -/
def isBase64 (c : UInt8) : Bool :=
  (isDigit c ∨ (65 ≤ c ∧ c ≤ 90) ∨ (97 ≤ c ∧ c ≤ 122)) ∨ c = ch '+' ∨ c = ch '/'

/-- `base64_chars.find(c)`, stored in an `unsigned char`: `npos` becomes 255. -/
def find (c : UInt8) : UInt8 :=
  if c ∈ base64Chars then UInt8.ofNat (base64Chars.idxOf c) else 255

/-- `char_array_3` from `char_array_4`. The tail leaves the last entries of the array as they were,
which changes no byte that it keeps, so a missing entry reads as zero. -/
def charArray3 (charArray4 : List UInt8) : List UInt8 :=
  let c0 := charArray4.getD 0 0
  let c1 := charArray4.getD 1 0
  let c2 := charArray4.getD 2 0
  let c3 := charArray4.getD 3 0
  [(c0 <<< 2) + ((c1 &&& 0x30) >>> 4), ((c1 &&& 0xf) <<< 4) + ((c2 &&& 0x3c) >>> 2),
    ((c2 &&& 0x3) <<< 6) + c3]

/-- The main loop. `rest` starts at `in_`; at its end the source reads the terminating zero, which
is no base64 character. The result is `char_array_4` with its `i` characters, and `ret`. -/
def base64DecodeLoop : Int → Bytes → List UInt8 → Bytes → List UInt8 × Bytes
  | _, [], charArray4, ret => (charArray4, ret)
  | in_len, c :: rest, charArray4, ret =>
    if in_len ≠ 0 ∧ c ≠ ch '=' ∧ isBase64 c then
      let charArray4 := charArray4 ++ [c]
      if charArray4.length = 4 then
        base64DecodeLoop (in_len - 1) rest [] (ret ++ charArray3 (charArray4.map find))
      else
        base64DecodeLoop (in_len - 1) rest charArray4 ret
    else (charArray4, ret)

def base64Decode (encoded_string : Bytes) : Bytes :=
  let in_len := toInt encoded_string.length
  let (charArray4, ret) := base64DecodeLoop in_len encoded_string [] []
  if charArray4.length ≠ 0 then
    ret ++ (charArray3 (charArray4.map find)).take (charArray4.length - 1)
  else ret

/-! ## The characters -/

theorem base64Chars_eq : base64Chars = alphabet := rfl

theorem isBase64_eq (c : UInt8) : isBase64 c = inAlphabet c := by
  revert c
  simp only [inAlphabet, alphabet_bytes]
  decide +kernel

theorem find_eq (c : UInt8) (h : inAlphabet c = true) : find c = sextetOf c := by
  rw [find, base64Chars_eq, if_pos (by simpa [inAlphabet] using h), sextetOf]

theorem ne_pad_of_inAlphabet (c : UInt8) (h : inAlphabet c = true) : c ≠ ch '=' := by
  rintro rfl
  rw [inAlphabet_pad] at h
  exact Bool.false_ne_true h

/-! ## One group

The source adds masked parts; on sextets these are the packed bytes.
-/

theorem add_eq_or (x y : UInt8) (h : x &&& y = 0) : x + y = x ||| y := by
  apply UInt8.eq_of_toBitVec_eq
  rw [UInt8.toBitVec_add, UInt8.toBitVec_or]
  apply BitVec.add_eq_or_of_and_eq_zero
  rw [← UInt8.toBitVec_and, h]
  rfl

theorem and_63 (s : UInt8) (h : s < 64) : s = s &&& 63 := by
  rw [UInt8.lt_iff_toNat_lt] at h
  apply UInt8.toNat_inj.mp
  rw [UInt8.toNat_and]
  exact (Nat.and_two_pow_sub_one_of_lt_two_pow (n := 6) h).symm

theorem charArray3_byte0 (a b : UInt8) (hb : b < 64) :
    (a <<< 2) + ((b &&& 0x30) >>> 4) = byte0 a b := by
  rw [and_63 b hb, add_eq_or, byte0] <;> apply UInt8.eq_of_toBitVec_eq <;>
  · simp only [UInt8.toBitVec_or, UInt8.toBitVec_shiftLeft, UInt8.toBitVec_shiftRight,
      UInt8.toBitVec_and, UInt8.toBitVec_ofNat]
    ext i hi
    interval_cases i <;> simp

theorem charArray3_byte1 (a b : UInt8) (hb : b < 64) :
    ((a &&& 0xf) <<< 4) + ((b &&& 0x3c) >>> 2) = byte1 a b := by
  rw [and_63 b hb, add_eq_or, byte1] <;> apply UInt8.eq_of_toBitVec_eq <;>
  · simp only [UInt8.toBitVec_or, UInt8.toBitVec_shiftLeft, UInt8.toBitVec_shiftRight,
      UInt8.toBitVec_and, UInt8.toBitVec_ofNat]
    ext i hi
    interval_cases i <;> simp

theorem charArray3_byte2 (a b : UInt8) (hb : b < 64) : ((a &&& 0x3) <<< 6) + b = byte2 a b := by
  rw [and_63 b hb, add_eq_or, byte2] <;> apply UInt8.eq_of_toBitVec_eq <;>
  · simp only [UInt8.toBitVec_or, UInt8.toBitVec_shiftLeft, UInt8.toBitVec_and,
      UInt8.toBitVec_ofNat]
    ext i hi
    interval_cases i <;> simp

/-- A group of up to four sextets, as the source decodes it: all three bytes of a full group, and
the first `n - 1` of a tail. -/
theorem charArray3_take (g : List UInt8) (hlen : g.length ≤ 4) (hg : ∀ s ∈ g, s < 64) :
    (charArray3 g).take (g.length - 1) = fromSextets g := by
  rcases g with _ | ⟨s0, _ | ⟨s1, _ | ⟨s2, _ | ⟨s3, rest⟩⟩⟩⟩
  · rfl
  · rfl
  · simp only [List.mem_cons, List.not_mem_nil, or_false, forall_eq_or_imp, forall_eq] at hg
    simp [charArray3, fromSextets, charArray3_byte0 _ _ hg.2]
  · simp only [List.mem_cons, List.not_mem_nil, or_false, forall_eq_or_imp, forall_eq] at hg
    simp [charArray3, fromSextets, charArray3_byte0 _ _ hg.2.1, charArray3_byte1 _ _ hg.2.2]
  · obtain rfl : rest = [] := List.eq_nil_of_length_eq_zero (by simp at hlen; omega)
    simp only [List.mem_cons, List.not_mem_nil, or_false, forall_eq_or_imp, forall_eq] at hg
    obtain ⟨-, h1, h2, h3⟩ := hg
    simp [charArray3, fromSextets, charArray3_byte0 _ _ h1, charArray3_byte1 _ _ h2,
      charArray3_byte2 _ _ h3]

/-! ## The loop -/

theorem map_find (l : Bytes) (h : ∀ c ∈ l, inAlphabet c = true) : l.map find = l.map sextetOf :=
  List.map_congr_left fun c hc => find_eq c (h c hc)

theorem map_sextetOf_lt (l : Bytes) (h : ∀ c ∈ l, inAlphabet c = true) :
    ∀ s ∈ l.map sextetOf, s < 64 := by
  intro s hs
  obtain ⟨c, hc, rfl⟩ := List.mem_map.mp hs
  exact sextetOf_lt c (h c hc)

/-- What the tail of `base64_decode` makes of the loop's result. -/
def finish (p : List UInt8 × Bytes) : Bytes :=
  if p.1.length ≠ 0 then p.2 ++ (charArray3 (p.1.map find)).take (p.1.length - 1) else p.2

theorem finish_tail (charArray4 ret : Bytes) (h4 : charArray4.length < 4)
    (ha : ∀ c ∈ charArray4, inAlphabet c = true) :
    finish (charArray4, ret) = ret ++ fromSextets (charArray4.map sextetOf) := by
  rw [finish, map_find _ ha]
  split
  · rw [← charArray3_take _ (by simp; omega) (map_sextetOf_lt _ ha), List.length_map]
  · rename_i h0
    obtain rfl : charArray4 = [] := List.eq_nil_of_length_eq_zero (by simpa using h0)
    simp [fromSextets]

theorem finish_group (charArray4 : Bytes) (h4 : charArray4.length = 4)
    (ha : ∀ c ∈ charArray4, inAlphabet c = true) :
    charArray3 (charArray4.map find) = fromSextets (charArray4.map sextetOf) := by
  have h := charArray3_take (charArray4.map sextetOf) (by simp; omega) (map_sextetOf_lt _ ha)
  rw [List.length_map, h4, List.take_of_length_le (by simp [charArray3])] at h
  rw [map_find _ ha, h]

/-- The bytes so far, then the group in hand with the rest of the characters, are the whole
result. -/
theorem base64DecodeLoop_spec (rest : Bytes) (in_len : Int) (charArray4 ret : Bytes)
    (hlen : in_len = rest.length) (h4 : charArray4.length < 4)
    (ha : ∀ c ∈ charArray4, inAlphabet c = true) :
    finish (base64DecodeLoop in_len rest charArray4 ret) =
      ret ++ fromSextets ((charArray4 ++ rest.takeWhile inAlphabet).map sextetOf) := by
  induction rest generalizing in_len charArray4 ret with
  | nil => simpa [base64DecodeLoop] using finish_tail charArray4 ret h4 ha
  | cons c rest ih =>
    rw [base64DecodeLoop]
    by_cases hc : inAlphabet c = true
    · have hgo : in_len ≠ 0 ∧ c ≠ ch '=' ∧ isBase64 c = true :=
        ⟨by simp at hlen; omega, ne_pad_of_inAlphabet c hc, by rw [isBase64_eq]; exact hc⟩
      have ha' : ∀ x ∈ charArray4 ++ [c], inAlphabet x = true := by
        intro x hx
        rcases List.mem_append.mp hx with hx | hx
        · exact ha x hx
        · rw [List.mem_singleton.mp hx]; exact hc
      have hlen' : in_len - 1 = rest.length := by simp at hlen; omega
      rw [if_pos hgo, List.takeWhile_cons_of_pos hc, List.append_cons _ _ (rest.takeWhile _)]
      simp only
      split
      · -- The fourth character: the group is decoded and the array starts again.
        rename_i h
        have hgroup : ((charArray4 ++ [c]).map sextetOf).length = 4 * 1 := by rw [List.length_map, h]
        rw [ih _ [] _ hlen' (by simp) (by simp), finish_group _ h ha', List.append_assoc,
          List.nil_append, ← fromSextets_append 1 _ _ hgroup, ← List.map_append]
      · rename_i h
        exact ih _ _ _ hlen' (by simp only [List.length_append, List.length_singleton] at *; omega) ha'
    · rw [if_neg (by rw [isBase64_eq]; tauto), List.takeWhile_cons_of_neg hc, List.append_nil]
      exact finish_tail charArray4 ret h4 ha

/-- Below the range of `int`, `base64_decode` decodes up to the first foreign character. -/
theorem base64Decode_eq (s : Bytes) (h : s.length < 2 ^ 31) : base64Decode s = decodePrefix s := by
  have hloop := base64DecodeLoop_spec s (toInt s.length) [] [] (toInt_of_lt _ h) (by simp) (by simp)
  simpa [finish, base64Decode, decodePrefix] using hloop

end FaceDetection.Base64

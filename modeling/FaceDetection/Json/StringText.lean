import FaceDetection.Json.Utf8

/-!
# Texts of JSON strings

`StringBody t s`: `t` is what a JSON text has between quotes for the bytes `s`. The reader finds the end
of such a text and decodes it to `s`.
-/

namespace FaceDetection.Json



/-! ## Strings -/

/-- Four hexadecimal digits. -/
def Hex4 (t : Bytes) (n : Nat) : Prop :=
  ∃ a b c d w x y z, t = [a, b, c, d] ∧ hexValue a = some w ∧ hexValue b = some x ∧
    hexValue c = some y ∧ hexValue d = some z ∧ n = ((w * 16 + x) * 16 + y) * 16 + z

/-- `t` stands for `s` between quotes. -/
inductive StringBody : Bytes → Bytes → Prop
  | nil : StringBody [] []
  | plain {c : UInt8} {t s : Bytes} (hc : 0x20 ≤ c) (hquote : c ≠ ch '"') (hslash : c ≠ ch '\\') :
      StringBody t s → StringBody (c :: t) (c :: s)
  | escape {e b : UInt8} {t s : Bytes} (he : simpleEscape e = some b) :
      StringBody t s → StringBody (ch '\\' :: e :: t) (b :: s)
  | unicode {c : Char} {hex t s : Bytes} (hhex : Hex4 hex c.val.toNat) :
      StringBody t s → StringBody (ch '\\' :: ch 'u' :: (hex ++ t)) (String.utf8EncodeChar c ++ s)
  | surrogates {c : Char} {high low t s : Bytes} (hc : 0x10000 ≤ c.val.toNat)
      (hhigh : Hex4 high (0xD800 + (c.val.toNat - 0x10000) / 1024))
      (hlow : Hex4 low (0xDC00 + (c.val.toNat - 0x10000) % 1024)) :
      StringBody t s →
        StringBody (ch '\\' :: ch 'u' :: (high ++ (ch '\\' :: ch 'u' :: (low ++ t))))
          (String.utf8EncodeChar c ++ s)

def quoted (t : Bytes) : Bytes := ch '"' :: (t ++ [ch '"'])

theorem stringEnd_plain {c : UInt8} {l : Location} (hquote : c ≠ ch '"') (hslash : c ≠ ch '\\')
    (hl : l ≠ []) : stringEnd (c :: l) = stringEnd l := by
  cases l with
  | nil => exact absurd rfl hl
  | cons d l => rw [stringEnd, if_neg hslash, if_neg hquote]

theorem stringEnd_escape (e : UInt8) (l : Location) :
    stringEnd (ch '\\' :: e :: l) = stringEnd l := by
  rw [stringEnd, if_pos rfl]

theorem stringEnd_quote (rest : Location) : stringEnd (ch '"' :: rest) = (true, rest) := by
  cases rest with
  | nil => rfl
  | cons d rest => rw [stringEnd, if_neg (by decide), if_pos rfl]

theorem hexValue_plain {c : UInt8} {d : Nat} (h : hexValue c = some d) :
    c ≠ ch '"' ∧ c ≠ ch '\\' := by
  have hquote : hexValue (ch '"') = none := by decide
  have hslash : hexValue (ch '\\') = none := by decide
  constructor
  · rintro rfl
    simp [hquote] at h
  · rintro rfl
    simp [hslash] at h

theorem stringEnd_hex4 {hex : Bytes} {n : Nat} (h : Hex4 hex n) {l : Location} (hl : l ≠ []) :
    stringEnd (hex ++ l) = stringEnd l := by
  obtain ⟨a, b, c, d, w, x, y, z, rfl, ha, hb, hc, hd, -⟩ := h
  simp only [List.cons_append, List.nil_append]
  rw [stringEnd_plain (hexValue_plain ha).1 (hexValue_plain ha).2 (by simp),
    stringEnd_plain (hexValue_plain hb).1 (hexValue_plain hb).2 (by simp),
    stringEnd_plain (hexValue_plain hc).1 (hexValue_plain hc).2 (by simp),
    stringEnd_plain (hexValue_plain hd).1 (hexValue_plain hd).2 hl]

/-- The closing quote is the first quote that no escape has taken. -/
theorem stringEnd_body {t s : Bytes} (h : StringBody t s) (rest : Location) :
    stringEnd (t ++ ch '"' :: rest) = (true, rest) := by
  induction h with
  | nil => exact stringEnd_quote rest
  | plain hc hquote hslash _ ih =>
    rw [List.cons_append, stringEnd_plain hquote hslash (by simp), ih]
  | escape he _ ih =>
    rw [List.cons_append, List.cons_append, stringEnd_escape, ih]
  | unicode hhex _ ih =>
    simp only [List.cons_append, List.append_assoc]
    rw [stringEnd_escape, stringEnd_hex4 hhex (by simp), ih]
  | surrogates hc hhigh hlow _ ih =>
    simp only [List.cons_append, List.append_assoc]
    rw [stringEnd_escape, stringEnd_hex4 hhigh (by simp), stringEnd_escape,
      stringEnd_hex4 hlow (by simp), ih]

theorem decodeUnicodeEscapeSequence_hex4 {hex : Bytes} {n : Nat} (h : Hex4 hex n) (t : Bytes) :
    decodeUnicodeEscapeSequence (hex ++ t) = .ok (n, t) := by
  obtain ⟨a, b, c, d, w, x, y, z, rfl, ha, hb, hc, hd, rfl⟩ := h
  unfold decodeUnicodeEscapeSequence
  rw [if_neg (by simp)]
  simp [hexDigits, ha, hb, hc, hd]

theorem decodeUnicodeCodePoint_hex4 {hex : Bytes} {n : Nat} (h : Hex4 hex n)
    (hn : ¬ (0xD800 ≤ n ∧ n ≤ 0xDBFF)) (t : Bytes) :
    decodeUnicodeCodePoint (hex ++ t) = .ok (n, t) := by
  unfold decodeUnicodeCodePoint
  rw [decodeUnicodeEscapeSequence_hex4 h]
  change (if 0xD800 ≤ n ∧ n ≤ 0xDBFF then _ else _) = _
  rw [if_neg hn]
  rfl

theorem decodeUnicodeCodePoint_pair {high low : Bytes} {first second : Nat}
    (hfirst : 0xD800 ≤ first ∧ first ≤ 0xDBFF) (hhigh : Hex4 high first) (hlow : Hex4 low second)
    (t : Bytes) :
    decodeUnicodeCodePoint (high ++ (ch '\\' :: ch 'u' :: (low ++ t))) =
      .ok (0x10000 + ((first &&& 0x3FF) <<< 10) + (second &&& 0x3FF), t) := by
  have hlen : low.length = 4 := by
    obtain ⟨_, _, _, _, _, _, _, _, rfl, -⟩ := hlow
    rfl
  unfold decodeUnicodeCodePoint
  rw [decodeUnicodeEscapeSequence_hex4 hhigh]
  change (if 0xD800 ≤ first ∧ first ≤ 0xDBFF then _ else _) = _
  rw [if_pos hfirst, if_neg (by simp [hlen]), if_pos (by simp [ascii])]
  simp only [List.drop_succ_cons, List.drop_zero]
  rw [decodeUnicodeEscapeSequence_hex4 hlow]
  rfl

theorem surrogates_value {n : Nat} (hn : 0x10000 ≤ n) (hmax : n ≤ 0x10FFFF) :
    0x10000 + (((0xD800 + (n - 0x10000) / 1024) &&& 0x3FF) <<< 10) +
      ((0xDC00 + (n - 0x10000) % 1024) &&& 0x3FF) = n := by
  have hones := fun x => Nat.and_two_pow_sub_one_eq_mod x 10
  simp only [Nat.reducePow, Nat.reduceSub] at hones
  rw [hones, hones, Nat.shiftLeft_eq]
  omega

theorem decodeUnicodeCodePoint_surrogates {high low : Bytes} {n : Nat} (hn : 0x10000 ≤ n)
    (hmax : n ≤ 0x10FFFF) (hhigh : Hex4 high (0xD800 + (n - 0x10000) / 1024))
    (hlow : Hex4 low (0xDC00 + (n - 0x10000) % 1024)) (t : Bytes) :
    decodeUnicodeCodePoint (high ++ (ch '\\' :: ch 'u' :: (low ++ t))) = .ok (n, t) := by
  rw [decodeUnicodeCodePoint_pair (by omega) hhigh hlow, surrogates_value hn hmax]

theorem val_not_surrogate (c : Char) : ¬ (0xD800 ≤ c.val.toNat ∧ c.val.toNat ≤ 0xDBFF) := by
  rcases c.valid with hc | hc <;> omega

theorem simpleEscape_ne_u {e b : UInt8} (h : simpleEscape e = some b) : e ≠ ch 'u' := by
  rintro rfl
  have hu : simpleEscape (ch 'u') = none := by decide
  simp [hu] at h

/-- Decoding the text between the quotes. -/
theorem decodeStringLoop_body {t s : Bytes} (h : StringBody t s) (fuel : Nat) (decoded : Bytes)
    (hfuel : t.length ≤ fuel) : decodeStringLoop fuel t decoded = .ok (decoded ++ s) := by
  induction h generalizing fuel decoded with
  | nil => cases fuel <;> simp [decodeStringLoop]
  | plain hc hquote hslash _ ih =>
    obtain ⟨fuel, rfl⟩ : ∃ f, fuel = f + 1 := ⟨fuel - 1, by simp only [List.length_cons] at hfuel; omega⟩
    unfold decodeStringLoop
    rw [if_neg hquote, if_neg hslash, ih _ _ (by simpa using hfuel)]
    simp
  | escape he _ ih =>
    obtain ⟨fuel, rfl⟩ : ∃ f, fuel = f + 1 := ⟨fuel - 1, by simp only [List.length_cons] at hfuel; omega⟩
    unfold decodeStringLoop
    rw [if_neg (by decide), if_pos rfl]
    simp only
    rw [if_neg (simpleEscape_ne_u he), he]
    simp only
    rw [ih _ _ (by simp only [List.length_cons] at hfuel; omega)]
    simp
  | unicode hhex _ ih =>
    obtain ⟨fuel, rfl⟩ : ∃ f, fuel = f + 1 := ⟨fuel - 1, by simp only [List.length_cons] at hfuel; omega⟩
    unfold decodeStringLoop
    rw [if_neg (by decide), if_pos rfl]
    simp only [if_true]
    rw [decodeUnicodeCodePoint_hex4 hhex (val_not_surrogate _)]
    change decodeStringLoop fuel _ _ = _
    rw [ih _ _ (by simp only [List.length_cons, List.length_append] at hfuel; omega),
      codePointToUTF8_char]
    simp
  | surrogates hc hhigh hlow _ ih =>
    obtain ⟨fuel, rfl⟩ : ∃ f, fuel = f + 1 := ⟨fuel - 1, by simp only [List.length_cons] at hfuel; omega⟩
    unfold decodeStringLoop
    rw [if_neg (by decide), if_pos rfl]
    simp only [if_true]
    rw [decodeUnicodeCodePoint_surrogates hc (val_le _) hhigh hlow]
    change decodeStringLoop fuel _ _ = _
    rw [ih _ _ (by simp only [List.length_cons, List.length_append] at hfuel; omega),
      codePointToUTF8_char]
    simp

end FaceDetection.Json

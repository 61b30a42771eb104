import FaceDetection.Json.StringText
import FaceDetection.Json.Total

/-!
# Tokens of a well-formed text

What `readToken` makes of white space and a token behind it, and what `decodeNumber` makes of the
digits of a number.
-/

namespace FaceDetection.Json

variable {Double : Type}

/-! ## Tokens -/

/-- White space. -/
def Ws (w : Bytes) : Prop := ∀ c ∈ w, isSpace c = true

instance (w : Bytes) : Decidable (Ws w) := List.decidableBAll (fun c => isSpace c = true) w

theorem ws_nil : Ws [] := by
  intro c hc
  cases hc

/-- The reader stands before `rest`, with no comment pending. -/
def At (rest : Bytes) (r : Reader) : Prop := r.current_ = rest ∧ r.commentsBefore_ = []

theorem dropWhile_ws {w : Bytes} (hw : Ws w) {c : UInt8} (hc : isSpace c = false) (l : Bytes) :
    (w ++ c :: l).dropWhile isSpace = c :: l := by
  rw [List.dropWhile_append_of_pos hw, List.dropWhile_cons_of_neg (by simp [hc])]

theorem skipSpaces_at {w : Bytes} (hw : Ws w) {c : UInt8} (hc : isSpace c = false) {l : Bytes}
    {r : Reader} (hr : At (w ++ c :: l) r) : At (c :: l) (skipSpaces r) := by
  unfold At skipSpaces
  rw [hr.1, dropWhile_ws hw hc]
  exact ⟨rfl, hr.2⟩

theorem between_append (t rest : Bytes) : between (t ++ rest) rest = t := by
  unfold between
  rw [List.length_append, Nat.add_sub_cancel, List.take_left]

theorem readToken_at {w : Bytes} (hw : Ws w) {c : UInt8} (hc : isSpace c = false) {l : Bytes}
    {r r' : Reader} {type_ : TokenType} (hr : At (w ++ c :: l) r)
    (hbody : readTokenBody (c :: l) c { r with current_ := l } = .ok (type_, true, r')) :
    readToken r = .ok ({ type_ := type_, start_ := c :: l, end_ := r'.current_ }, r') := by
  have hspaces : skipSpaces r = { r with current_ := c :: l } := by
    unfold skipSpaces
    rw [hr.1, dropWhile_ws hw hc]
  unfold readToken
  rw [hspaces]
  change (readTokenBody (c :: l) c { r with current_ := l } >>= _) = _
  rw [hbody]
  rfl

theorem skipCommentTokens_eq {r r' : Reader} {token : Token} (h : readToken r = .ok (token, r'))
    (htype : token.type_ ≠ .comment) : skipCommentTokens r = .ok (token, r') := by
  unfold skipCommentTokens skipCommentTokensLoop
  rw [h]
  change (if token.type_ = .comment then _ else _) = _
  rw [if_neg htype]
  rfl

/-- A token of one byte. -/
theorem readToken_punctuation (type_ : TokenType) {w : Bytes} (hw : Ws w) {c : UInt8}
    (hc : isSpace c = false) {l : Bytes} {r : Reader} (hr : At (w ++ c :: l) r)
    (hbody : ∀ r, readTokenBody (c :: l) c r = .ok (type_, true, r)) :
    ∃ r', readToken r = .ok ({ type_ := type_, start_ := c :: l, end_ := l }, r') ∧ At l r' :=
  ⟨{ r with current_ := l }, readToken_at hw hc hr (hbody _), rfl, hr.2⟩

/-- A token of a fixed word: `c` and the rest of it. -/
theorem readToken_word (type_ : TokenType) {w : Bytes} (hw : Ws w) {c : UInt8} {pattern l : Bytes}
    (hc : isSpace c = false) {r : Reader} (hr : At (w ++ (c :: pattern ++ l)) r)
    (hbody : ∀ start_ r, readTokenBody start_ c r = .ok (type_, matchPattern pattern r)) :
    ∃ r', readToken r = .ok ({ type_ := type_, start_ := c :: (pattern ++ l), end_ := l }, r') ∧
      At l r' := by
  have hpattern : pattern.isPrefixOf (pattern ++ l) = true :=
    List.isPrefixOf_iff_prefix.mpr (List.prefix_append pattern l)
  have hword : readTokenBody (c :: (pattern ++ l)) c { r with current_ := pattern ++ l } =
      .ok (type_, true, { r with current_ := l }) := by
    rw [hbody]
    unfold matchPattern
    simp only [hpattern, if_true, List.drop_left]
  exact ⟨{ r with current_ := l }, readToken_at hw hc hr hword, rfl, hr.2⟩

theorem readToken_quoted {w : Bytes} (hw : Ws w) {t s l : Bytes} (ht : StringBody t s) {r : Reader}
    (hr : At (w ++ (quoted t ++ l)) r) :
    ∃ r', readToken r = .ok ({ type_ := .string, start_ := quoted t ++ l, end_ := l }, r') ∧
      At l r' := by
  have hend : stringEnd (t ++ ([ch '"'] ++ l)) = (true, l) := stringEnd_body ht l
  refine ⟨{ r with current_ := l }, ?_, rfl, hr.2⟩
  have hquoted : quoted t ++ l = ch '"' :: (t ++ ([ch '"'] ++ l)) := by
    simp [quoted]
  rw [hquoted] at hr ⊢
  have hbody : readTokenBody (ch '"' :: (t ++ ([ch '"'] ++ l))) (ch '"')
      { r with current_ := t ++ ([ch '"'] ++ l) } = .ok (.string, true, { r with current_ := l }) := by
    change Except.ok (TokenType.string, readString _) = _
    unfold readString
    simp only [hend]
  exact readToken_at hw rfl hr hbody

theorem decodeString_quoted {t s l : Bytes} (ht : StringBody t s) (r : Reader) :
    decodeString { type_ := .string, start_ := quoted t ++ l, end_ := l } r = (some s, r) := by
  unfold decodeString
  simp only [between_append]
  have htext : ((quoted t).drop 1).dropLast = t := by simp [quoted]
  rw [htext, decodeStringLoop_body ht _ _ (le_refl _)]
  rfl

/-! ## Numbers -/

/-- A text of digits, read from the left. -/
def digitsValue (digits : Bytes) (value : Nat) : Nat :=
  digits.foldl (fun value c => value * 10 + (c.toNat - 48)) value

theorem digitsValue_ge (digits : Bytes) (value : Nat) : value ≤ digitsValue digits value := by
  induction digits generalizing value with
  | nil => exact le_refl _
  | cons c digits ih =>
    have hstep := ih (value * 10 + (c.toNat - 48))
    change value ≤ digitsValue digits (value * 10 + (c.toNat - 48))
    omega

/-- The overflow test of `decodeNumber` is exact. -/
theorem decodeInteger_digits {maxIntegerValue : Nat} (hmax : 10 ≤ maxIntegerValue) (digits : Bytes)
    (value : Nat) (hdigits : ∀ c ∈ digits, isDigit c = true)
    (hle : digitsValue digits value ≤ maxIntegerValue) :
    decodeInteger maxIntegerValue digits value = some (digitsValue digits value) := by
  induction digits generalizing value with
  | nil => rfl
  | cons c digits ih =>
    have hc : isDigit c = true := hdigits c (by simp)
    have hrest := ih (value * 10 + (c.toNat - 48)) (fun d hd => hdigits d (by simp [hd])) hle
    have hnext : value * 10 + (c.toNat - 48) ≤ maxIntegerValue := le_trans (digitsValue_ge _ _) hle
    have hten : digits ≠ [] → (value * 10 + (c.toNat - 48)) * 10 ≤ maxIntegerValue := by
      intro hne
      cases digits with
      | nil => exact absurd rfl hne
      | cons d digits =>
        refine le_trans ?_ (le_trans (digitsValue_ge digits _) hle)
        simp only
        omega
    unfold decodeInteger
    simp only [hc, Bool.not_true, Bool.false_eq_true, if_false]
    rw [if_neg, hrest]
    · rfl
    · rintro ⟨hge, hgt | hne | hdigit⟩
      · omega
      · have := hten hne
        omega
      · omega

theorem digit_char : ∀ d < 10, isDigit (ch (Nat.digitChar d)) = true ∧
    (ch (Nat.digitChar d)).toNat - 48 = d := by decide

theorem uintToString_lt (n : Nat) (h : n < 10) : uintToString n = [ch (Nat.digitChar n)] := by
  rw [uintToString, Nat.toDigits_of_lt_base h]
  rfl

theorem uintToString_ge (n : Nat) (h : 10 ≤ n) :
    uintToString n = uintToString (n / 10) ++ [ch (Nat.digitChar (n % 10))] := by
  rw [uintToString, Nat.toDigits_of_base_le (by omega) h, List.map_append]
  rfl

theorem isDigit_uintToString (n : Nat) : ∀ c ∈ uintToString n, isDigit c = true := by
  induction n using Nat.strong_induction_on with
  | _ n ih =>
    rcases Nat.lt_or_ge n 10 with h | h
    · rw [uintToString_lt n h]
      intro c hc
      rw [List.mem_singleton.mp hc]
      exact (digit_char n h).1
    · rw [uintToString_ge n h]
      intro c hc
      rcases List.mem_append.mp hc with hc | hc
      · exact ih (n / 10) (by omega) c hc
      · rw [List.mem_singleton.mp hc]
        exact (digit_char (n % 10) (Nat.mod_lt _ (by omega))).1

theorem digitsValue_uintToString (n : Nat) : digitsValue (uintToString n) 0 = n := by
  induction n using Nat.strong_induction_on with
  | _ n ih =>
    rcases Nat.lt_or_ge n 10 with h | h
    · rw [uintToString_lt n h]
      have hd := (digit_char n h).2
      simp only [digitsValue, List.foldl_cons, List.foldl_nil]
      omega
    · rw [uintToString_ge n h]
      have hd := (digit_char (n % 10) (Nat.mod_lt _ (by omega))).2
      have hhigh := ih (n / 10) (by omega)
      unfold digitsValue at hhigh ⊢
      rw [List.foldl_append, hhigh]
      simp only [List.foldl_cons, List.foldl_nil]
      omega

/-- What may stand behind a value: a number ends there. -/
def Follow (rest : Bytes) : Prop :=
  ∀ c ∈ rest.head?, isDigit c = false ∧ c ≠ ch '.' ∧ c ≠ ch 'e' ∧ c ≠ ch 'E'

theorem skipNumber {digits rest : Bytes} (hdigits : ∀ c ∈ digits, isDigit c = true)
    (hrest : Follow rest) :
    skipExponent (skipFraction ((digits ++ rest).dropWhile isDigit)) = rest := by
  rw [List.dropWhile_append_of_pos hdigits]
  cases rest with
  | nil => rfl
  | cons c rest =>
    obtain ⟨hdigit, hdot, he, hE⟩ := hrest c (by simp)
    rw [List.dropWhile_cons_of_neg (by simp [hdigit])]
    unfold skipFraction
    simp only [if_neg hdot]
    unfold skipExponent
    simp only [if_neg (not_or.mpr ⟨he, hE⟩)]

theorem readTokenBody_digit {c : UInt8} (hc : isDigit c = true) (start_ : Location) (r : Reader) :
    readTokenBody start_ c r = .ok (.number, true, (readNumber false r).2) := by
  have hne : ∀ d : UInt8, isDigit d = false → c ≠ d := by
    rintro d hd rfl
    rw [hc] at hd
    cases hd
  unfold readTokenBody
  rw [if_neg (hne _ (by decide)), if_neg (hne _ (by decide)), if_neg (hne _ (by decide)),
    if_neg (hne _ (by decide)), if_neg (hne _ (by decide)),
    if_neg (not_or.mpr ⟨hne _ (by decide), hne _ (by decide)⟩), if_pos hc]

theorem isSpace_digit {c : UInt8} (hc : isDigit c = true) : isSpace c = false := by
  unfold isDigit at hc
  unfold isSpace
  grind [ch]

/-- The number token of the digits of `n`. -/
theorem readToken_uint {w : Bytes} (hw : Ws w) (n : Nat) {rest : Bytes} (hrest : Follow rest)
    {r : Reader} (hr : At (w ++ (uintToString n ++ rest)) r) :
    ∃ r', readToken r =
      .ok ({ type_ := .number, start_ := uintToString n ++ rest, end_ := rest }, r') ∧ At rest r' := by
  have hall := isDigit_uintToString n
  refine ⟨{ r with current_ := rest }, ?_, rfl, hr.2⟩
  cases hdigits : uintToString n with
  | nil => simp [uintToString] at hdigits
  | cons c digits =>
    rw [hdigits] at hall hr
    have hc := hall c (by simp)
    have htail : ∀ d ∈ digits, isDigit d = true := fun d hd => hall d (by simp [hd])
    have hbody : readTokenBody (c :: (digits ++ rest)) c { r with current_ := digits ++ rest } =
        .ok (.number, true, { r with current_ := rest }) := by
      rw [readTokenBody_digit hc]
      unfold readNumber
      simp only [Bool.false_eq_true, false_and, if_false, skipNumber htail hrest]
    exact readToken_at hw (isSpace_digit hc) hr hbody

/-- The number token of `-` and the digits of `n`. -/
theorem readToken_negative {w : Bytes} (hw : Ws w) (n : Nat) {rest : Bytes} (hrest : Follow rest)
    {r : Reader} (hr : At (w ++ (ch '-' :: (uintToString n ++ rest))) r) :
    ∃ r', readToken r =
      .ok ({ type_ := .number, start_ := ch '-' :: (uintToString n ++ rest), end_ := rest }, r') ∧
        At rest r' := by
  have hall := isDigit_uintToString n
  refine ⟨{ r with current_ := rest }, ?_, rfl, hr.2⟩
  have hhead : (uintToString n ++ rest).head? ≠ some (ch 'I') := by
    cases hdigits : uintToString n with
    | nil => simp [uintToString] at hdigits
    | cons c digits =>
      rintro heq
      rw [hdigits] at hall
      have hc := hall c (by simp)
      cases heq
      revert hc
      decide
  have hbody : readTokenBody (ch '-' :: (uintToString n ++ rest)) (ch '-')
      { r with current_ := uintToString n ++ rest } =
        .ok (.number, true, { r with current_ := rest }) := by
    change Except.ok (TokenType.number, readNumber true _) = _
    unfold readNumber
    rw [if_neg (by simp only [true_and]; exact hhead)]
    simp only [skipNumber hall hrest]
  exact readToken_at hw rfl hr hbody

theorem uintToString_head (n : Nat) : (uintToString n).head? ≠ some (ch '-') := by
  cases hdigits : uintToString n with
  | nil => simp
  | cons c digits =>
    intro heq
    cases heq
    have hc := isDigit_uintToString n (ch '-') (by simp [hdigits])
    exact absurd hc (by decide)

/-- The text of an integer. -/
theorem valueToStringInt_eq (i : Int64) :
    valueToStringInt i =
      if i.toInt < 0 then ch '-' :: uintToString (-i.toInt).toNat else uintToString i.toInt.toNat := by
  have hlow := i.le_toInt
  have hhigh := i.toInt_lt
  have hlt : i < 0 ↔ i.toInt < 0 := by rw [Int64.lt_iff_toInt_lt, Int64.toInt_zero]
  unfold valueToStringInt
  by_cases hmin : i = Int64.minValue
  · subst hmin
    rfl
  · have hne : i.toInt ≠ -2 ^ 63 := by
      intro heq
      exact hmin (Int64.toInt_inj.mp (heq.trans Int64.toInt_minValue.symm))
    rw [if_neg hmin]
    by_cases hneg : i.toInt < 0
    · have hbmod : (-i).toInt = -i.toInt := by
        rw [Int64.toInt_neg]
        exact Int.bmod_eq_of_le (by omega) (by omega)
      rw [if_pos (hlt.mpr hneg), if_pos hneg, hbmod]
    · rw [if_neg (fun h => hneg (hlt.mp h)), if_neg hneg]

theorem decodeInteger_uintToString {maxIntegerValue : Nat} (hmax : 10 ≤ maxIntegerValue) {n : Nat}
    (hn : n ≤ maxIntegerValue) : decodeInteger maxIntegerValue (uintToString n) 0 = some n := by
  have h := decodeInteger_digits hmax (uintToString n) 0 (isDigit_uintToString n)
    (by rw [digitsValue_uintToString]; exact hn)
  rw [digitsValue_uintToString] at h
  exact h

theorem decodeNumber_uint (libc : LibC Double) {n : Nat} (hn : n ≤ 2 ^ 64 - 1) (rest : Bytes)
    (r : Reader) :
    decodeNumber libc { type_ := .number, start_ := uintToString n ++ rest, end_ := rest } r =
      (some (if n ≤ 2 ^ 31 - 1 then .intValue (Int64.ofInt n) else .uintValue (UInt64.ofNat n)), r) := by
  unfold decodeNumber
  simp only [between_append, uintToString_head, if_false,
    decodeInteger_uintToString (by decide) hn]
  split_ifs <;> rfl

theorem decodeNumber_negative (libc : LibC Double) {n : Nat} (hn : n ≤ 2 ^ 63) (rest : Bytes)
    (r : Reader) :
    decodeNumber libc
        { type_ := .number, start_ := ch '-' :: (uintToString n ++ rest), end_ := rest } r =
      (some (.intValue (Int64.ofInt (-n))), r) := by
  have htext : between (ch '-' :: (uintToString n ++ rest)) rest = ch '-' :: uintToString n :=
    between_append (ch '-' :: uintToString n) rest
  unfold decodeNumber
  simp only [htext, List.head?_cons, if_true, List.drop_succ_cons, List.drop_zero,
    decodeInteger_uintToString (by decide) hn]

end FaceDetection.Json

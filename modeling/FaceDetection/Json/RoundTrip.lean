import FaceDetection.Json.Text

/-!
# The writer and the reader

`writeString` writes a text of its value, so parsing what it wrote gives the value back.
-/

namespace FaceDetection.Json

variable {Double : Type}

/-! ## Strings -/

/-- UTF-8 of some characters. -/
def WellFormed (s : Bytes) : Prop := ∃ chars : List Char, s = chars.flatMap String.utf8EncodeChar

theorem hexValue_hexDigit : ∀ d < 16, hexValue (hexDigit d) = some d := by decide

theorem hex4_toHex16Bit {n : Nat} (hn : n < 65536) : Hex4 (toHex16Bit n) n := by
  have hones := fun x => Nat.and_two_pow_sub_one_eq_mod x 8
  simp only [Nat.reducePow, Nat.reduceSub] at hones
  have hhigh : (n >>> 8) &&& 0xff = n / 256 := by
    rw [hones, Nat.shiftRight_eq_div_pow]
    omega
  refine ⟨_, _, _, _, n / 256 / 16, n / 256 % 16, n % 256 / 16, n % 256 % 16, rfl, ?_, ?_, ?_, ?_,
    by omega⟩
  · rw [hhigh]
    exact hexValue_hexDigit _ (by omega)
  · rw [hhigh]
    exact hexValue_hexDigit _ (by omega)
  · rw [hones]
    exact hexValue_hexDigit _ (by omega)
  · rw [hones]
    exact hexValue_hexDigit _ (by omega)

theorem shortEscape_spec : ∀ b e, shortEscape b = some e →
    b < 0x80 ∧ ∃ x, e = [ch '\\', x] ∧ simpleEscape x = some b := by
  intro b e h
  unfold shortEscape at h
  split_ifs at h with h1 h2 h3 h4 h5 h6 h7
  all_goals
    subst_vars
    cases h
    exact ⟨by decide, _, rfl, by decide⟩

/-- The first byte of a character is the character, or the lead of more bytes. -/
theorem utf8EncodeChar_head (c : Char) : ∃ b tail, String.utf8EncodeChar c = b :: tail ∧
    (b < 0x80 → tail = [] ∧ c.val.toNat = b.toNat) := by
  have hbyte : ∀ x, x < 256 → (UInt8.ofNat x).toNat = x := fun x hx => by
    rw [UInt8.toNat_ofNat', Nat.mod_eq_of_lt hx]
  unfold String.utf8EncodeChar
  generalize c.val.toNat = v
  simp only
  split_ifs with h1 h2 h3
  · exact ⟨_, _, rfl, fun _ => ⟨rfl, (hbyte v (by omega)).symm⟩⟩
  all_goals
    refine ⟨_, _, rfl, fun hlt => ?_⟩
    rw [UInt8.lt_iff_toNat_lt, hbyte _ (by omega)] at hlt
    simp only [UInt8.reduceToNat] at hlt
    omega

theorem escapeCodepoint_body {c : Char} {t s : Bytes} (h : StringBody t s)
    (hshort : c.val.toNat < 0x80 → shortEscape (UInt8.ofNat c.val.toNat) = none) :
    StringBody (escapeCodepoint c.val.toNat ++ t) (String.utf8EncodeChar c ++ s) := by
  have hmax := val_le c
  have hu : ascii "\\u" = [ch '\\', ch 'u'] := rfl
  unfold escapeCodepoint
  split_ifs with hplain hbmp
  · have hutf8 : String.utf8EncodeChar c = [UInt8.ofNat c.val.toNat] := by
      unfold String.utf8EncodeChar
      simp only
      rw [if_pos (by omega)]
    have hnone := hshort hplain.1
    rw [hutf8]
    refine StringBody.plain ?_ ?_ ?_ h
    · rw [UInt8.le_iff_toNat_le, UInt8.toNat_ofNat', Nat.mod_eq_of_lt (by omega)]
      exact hplain.2
    · intro hquote
      rw [hquote] at hnone
      exact absurd hnone (by decide)
    · intro hslash
      rw [hslash] at hnone
      exact absurd hnone (by decide)
  · have hbody := StringBody.unicode (hex4_toHex16Bit hbmp) h
    simpa [hu] using hbody
  · have hones := fun x => Nat.and_two_pow_sub_one_eq_mod x 10
    simp only [Nat.reducePow, Nat.reduceSub] at hones
    have hhigh : Hex4 (toHex16Bit ((c.val.toNat - 0x10000) / 1024 + 0xD800))
        (0xD800 + (c.val.toNat - 0x10000) / 1024) := by
      rw [Nat.add_comm 0xD800]
      exact hex4_toHex16Bit (by omega)
    have hlow : Hex4 (toHex16Bit ((c.val.toNat - 0x10000) % 1024 + 0xDC00))
        (0xDC00 + (c.val.toNat - 0x10000) % 1024) := by
      rw [Nat.add_comm 0xDC00]
      exact hex4_toHex16Bit (by omega)
    have hbody := StringBody.surrogates (by omega) hhigh hlow h
    simp only [hones, Nat.shiftRight_eq_div_pow, hu, Nat.reducePow]
    simpa using hbody

theorem escapeLoop_body (chars : List Char) (fuel : Nat)
    (hfuel : (chars.flatMap String.utf8EncodeChar).length ≤ fuel) :
    StringBody (escapeLoop fuel (chars.flatMap String.utf8EncodeChar))
      (chars.flatMap String.utf8EncodeChar) := by
  induction chars generalizing fuel with
  | nil =>
    have hnil : escapeLoop fuel [] = [] := by cases fuel <;> rfl
    simp only [List.flatMap_nil, hnil]
    exact StringBody.nil
  | cons c chars ih =>
    rw [List.flatMap_cons] at hfuel ⊢
    obtain ⟨b, tail, hutf8, hhead⟩ := utf8EncodeChar_head c
    have hcodepoint := utf8ToCodepoint_char c (chars.flatMap String.utf8EncodeChar)
    rw [hutf8, List.cons_append] at hfuel hcodepoint ⊢
    simp only [List.length_cons, List.length_append] at hfuel
    obtain ⟨fuel, rfl⟩ : ∃ f, fuel = f + 1 := ⟨fuel - 1, by omega⟩
    have hrest := ih fuel (by omega)
    rw [escapeLoop]
    cases hshort : shortEscape b with
    | some e =>
      obtain ⟨hb, x, rfl, hx⟩ := shortEscape_spec b e hshort
      obtain ⟨rfl, -⟩ := hhead hb
      exact StringBody.escape hx hrest
    | none =>
      simp only [hcodepoint]
      rw [← List.cons_append, ← hutf8]
      apply escapeCodepoint_body hrest
      intro hascii
      have hb : UInt8.ofNat c.val.toNat = b := by
        by_cases hlt : b < 0x80
        · rw [(hhead hlt).2, UInt8.ofNat_toNat]
        · unfold String.utf8EncodeChar at hutf8
          simp only at hutf8
          rw [if_pos (by omega)] at hutf8
          cases hutf8
          rfl
      rw [hb, hshort]

theorem isAnyCharRequiredQuoting_cons (c : UInt8) (s : Bytes) :
    isAnyCharRequiredQuoting (c :: s) = true := by
  have hc : ∀ c : UInt8, c.toInt8 < 32 ∨ c < 0x80 := by decide +kernel
  unfold isAnyCharRequiredQuoting
  rw [List.any_cons, Bool.or_eq_true]
  left
  rcases hc c with h | h <;> simp [h]

theorem valueToQuotedStringN_body {s : Bytes} (h : WellFormed s) :
    ∃ t, valueToQuotedStringN s = quoted t ∧ StringBody t s := by
  obtain ⟨chars, rfl⟩ := h
  have hbody := escapeLoop_body chars _ (le_refl _)
  refine ⟨_, ?_, hbody⟩
  unfold valueToQuotedStringN
  cases hs : chars.flatMap String.utf8EncodeChar with
  | nil => rfl
  | cons c s =>
    rw [isAnyCharRequiredQuoting_cons]
    simp [quoted, ascii]

/-! ## The writer's state -/

/-- `w'` is `w` after writing `t`, at the same indentation. -/
def Writes (w w' : Writer) (t : Bytes) : Prop :=
  w'.sout_ = w.sout_ ++ t ∧ w'.indentString_ = w.indentString_

theorem Writes.trans {w w' w'' : Writer} {t t' : Bytes} (h : Writes w w' t) (h' : Writes w' w'' t') :
    Writes w w'' (t ++ t') := by
  refine ⟨?_, h'.2.trans h.2⟩
  rw [h'.1, h.1, List.append_assoc]

theorem pushValue_writes (value : Bytes) (w : Writer) : Writes w (pushValue value w) value :=
  ⟨rfl, rfl⟩

theorem ws_append {w w' : Bytes} (hw : Ws w) (hw' : Ws w') : Ws (w ++ w') := by
  intro c hc
  rcases List.mem_append.mp hc with hc | hc
  · exact hw c hc
  · exact hw' c hc

/-- The line break and indentation that some pieces start with. -/
theorem indented_writes {w : Writer} (hw : Ws w.indentString_) :
    ∃ pre, Ws pre ∧ Writes w (if !w.indented_ then writeIndent w else w) pre := by
  split_ifs
  · have hnewline : Ws (ascii "\n") := by decide
    refine ⟨ascii "\n" ++ w.indentString_, ws_append hnewline hw, ?_, rfl⟩
    unfold writeIndent
    simp only [List.append_assoc]
  · exact ⟨[], by simp [Ws], by simp [Writes]⟩

theorem writeWithIndent_writes (value : Bytes) {w : Writer} (hw : Ws w.indentString_) :
    ∃ pre, Ws pre ∧ Writes w (writeWithIndent value w) (pre ++ value) := by
  obtain ⟨pre, hpre, hwrites⟩ := indented_writes hw
  refine ⟨pre, hpre, ?_, hwrites.2⟩
  unfold writeWithIndent
  simp only
  rw [hwrites.1, List.append_assoc]

/-- What stands between brackets is written one level deeper. -/
theorem nested_writes {Q : Bytes → Prop} {body : Writer → Writer} (left right : Bytes)
    (hbody : ∀ w, Ws w.indentString_ → ∃ t, Q t ∧ Writes w (body w) t) {w : Writer}
    (hw : Ws w.indentString_) :
    ∃ pre t post, Ws pre ∧ Q t ∧ Ws post ∧
      Writes w (writeWithIndent right (unindent (body (indent (writeWithIndent left w)))))
        (pre ++ (left ++ (t ++ (post ++ right)))) := by
  obtain ⟨pre, hpre, hleft⟩ := writeWithIndent_writes left hw
  have hindent : Ws (indent (writeWithIndent left w)).indentString_ := by
    unfold indent
    simp only [hleft.2]
    exact ws_append hw (by decide)
  obtain ⟨t, hQ, ht⟩ := hbody _ hindent
  have hunindent : Writes (writeWithIndent left w)
      (unindent (body (indent (writeWithIndent left w)))) t := by
    refine ⟨ht.1, ?_⟩
    unfold unindent
    simp only [ht.2]
    unfold indent
    simp
  have hlevel : Ws (unindent (body (indent (writeWithIndent left w)))).indentString_ := by
    rw [hunindent.2, hleft.2]
    exact hw
  obtain ⟨post, hpost, hright⟩ := writeWithIndent_writes right hlevel
  refine ⟨pre, t, post, hpre, hQ, hpost, ?_⟩
  have hall := (hleft.trans hunindent).trans hright
  simpa only [List.append_assoc] using hall

/-! ## Containers -/

/-- `v` is written as a text of `P`, perhaps on a line of its own. -/
def WritesText (libc : LibC Double) (P : Value Double → Bytes → Prop) (v : Value Double) : Prop :=
  ∀ w : Writer, Ws w.indentString_ →
    ∃ pre t, Ws pre ∧ P v t ∧ Writes w (writeValue libc v w) (pre ++ t)

theorem writeElements_separated {libc : LibC Double} {P : Value Double → Bytes → Prop}
    {vs : List (Value Double)} (hwrite : ∀ v ∈ vs, WritesText libc P v) (hne : vs ≠ [])
    {w : Writer} (hw : Ws w.indentString_) :
    ∃ t, Separated (ElementText P) vs t ∧ Writes w (writeElements libc vs w) t := by
  induction vs generalizing w with
  | nil => exact absurd rfl hne
  | cons v vs ih =>
    obtain ⟨pre, hpre, hindented⟩ := indented_writes hw
    have hw1 : Ws (if !w.indented_ then writeIndent w else w).indentString_ := by
      rw [hindented.2]
      exact hw
    unfold writeElements
    generalize (if !w.indented_ then writeIndent w else w) = w1 at hindented hw1 ⊢
    obtain ⟨pre', t, hpre', hv, hvalue⟩ := hwrite v (by simp) { w1 with indented_ := true } hw1
    have htext : ElementText P v (pre ++ (pre' ++ t)) :=
      ⟨pre ++ pre', t, [], ws_append hpre hpre', by decide, hv, by simp⟩
    have hwrites : Writes w { writeValue libc v { w1 with indented_ := true } with indented_ := false }
        (pre ++ (pre' ++ t)) := hindented.trans hvalue
    simp only
    generalize { writeValue libc v { w1 with indented_ := true } with indented_ := false } = w2
      at hwrites ⊢
    cases vs with
    | nil => exact ⟨_, .single htext, hwrites⟩
    | cons v' vs =>
      have hcomma := hwrites.trans (pushValue_writes (ascii ",") w2)
      obtain ⟨ts, hs, hrest⟩ := ih (fun v hv => hwrite v (List.mem_cons_of_mem _ hv)) (by simp)
        (w := pushValue (ascii ",") w2) (by rw [hcomma.2]; exact hw)
      refine ⟨_, .cons htext hs, ?_⟩
      simpa [ascii] using hcomma.trans hrest

theorem writeMembers_separated {libc : LibC Double} {P : Value Double → Bytes → Prop}
    {ms : List (Bytes × Value Double)} (hwrite : ∀ m ∈ ms, WritesText libc P m.2)
    (hname : ∀ m ∈ ms, WellFormed m.1 ∧ m.1.length < 2 ^ 30) (hne : ms ≠ [])
    {w : Writer} (hw : Ws w.indentString_) :
    ∃ t, Separated (MemberText P) ms t ∧ Writes w (writeMembers libc ms w) t := by
  induction ms generalizing w with
  | nil => exact absurd rfl hne
  | cons m ms ih =>
    obtain ⟨name, v⟩ := m
    obtain ⟨hformed, hshort⟩ := hname (name, v) (by simp)
    obtain ⟨nameText, hquoted, hbody⟩ := valueToQuotedStringN_body hformed
    obtain ⟨pre, hpre, hleft⟩ := writeWithIndent_writes (valueToQuotedStringN name) hw
    have hcolon := hleft.trans (pushValue_writes colonSymbol_ _)
    obtain ⟨pre', t, hpre', hv, hvalue⟩ := hwrite (name, v) (by simp)
      (pushValue colonSymbol_ (writeWithIndent (valueToQuotedStringN name) w))
      (by rw [hcolon.2]; exact hw)
    have hsymbol : colonSymbol_ = ascii " " ++ (ch ':' :: ascii " ") := rfl
    have htext : MemberText P (name, v)
        (((pre ++ valueToQuotedStringN name) ++ colonSymbol_) ++ (pre' ++ t)) :=
      ⟨pre, nameText, ascii " ", ascii " " ++ pre', t, [], hpre, by decide,
        ws_append (by decide) hpre', by decide, hbody, hshort, hv, by simp [hquoted, hsymbol]⟩
    have hwrites := hcolon.trans hvalue
    unfold writeMembers
    simp only
    generalize writeValue libc v (pushValue colonSymbol_
      (writeWithIndent (valueToQuotedStringN name) w)) = w2 at hwrites ⊢
    cases ms with
    | nil => exact ⟨_, .single htext, hwrites⟩
    | cons m' ms =>
      have hcomma := hwrites.trans (pushValue_writes (ascii ",") w2)
      obtain ⟨ts, hs, hrest⟩ := ih (fun m hm => hwrite m (List.mem_cons_of_mem _ hm))
        (fun m hm => hname m (List.mem_cons_of_mem _ hm)) (by simp)
        (w := pushValue (ascii ",") w2) (by rw [hcomma.2]; exact hw)
      refine ⟨_, .cons htext hs, ?_⟩
      simpa [ascii] using hcomma.trans hrest

theorem ElementText.append_ws {P : Value Double → Bytes → Prop} {v : Value Double} {t w : Bytes}
    (h : ElementText P v t) (hw : Ws w) : ElementText P v (t ++ w) := by
  obtain ⟨w1, body, w2, h1, h2, hv, rfl⟩ := h
  exact ⟨w1, body, w2 ++ w, h1, ws_append h2 hw, hv, by simp⟩

theorem MemberText.append_ws {P : Value Double → Bytes → Prop} {m : Bytes × Value Double}
    {t w : Bytes} (h : MemberText P m t) (hw : Ws w) : MemberText P m (t ++ w) := by
  obtain ⟨w1, name, w2, w3, body, w4, h1, h2, h3, h4, hname, hshort, hv, rfl⟩ := h
  exact ⟨w1, name, w2, w3, body, w4 ++ w, h1, h2, h3, ws_append h4 hw, hname, hshort, hv, by simp⟩

/-- White space behind the last element belongs to it. -/
theorem Separated.append_ws {α : Type} {P : α → Bytes → Prop} {l : List α} {t w : Bytes}
    (h : Separated P l t) (hw : Ws w) (hP : ∀ a t, P a t → P a (t ++ w)) :
    Separated P l (t ++ w) := by
  induction h with
  | nil hw' => exact .nil (ws_append hw' hw)
  | single h => exact .single (hP _ _ h)
  | cons h hs ih =>
    rw [List.append_assoc, List.cons_append]
    exact .cons h ih

/-! ## Values -/

/-- A value that the writer and the reader agree on, when `Q` holds of the values in it: no
fraction, integers in the kind that the reader gives them, UTF-8 in every string, names in order,
and sizes that the reader takes. -/
def PrintableValue (Q : Value Double → Prop) : Value Double → Prop
  | .nullValue => True
  | .booleanValue _ => True
  | .intValue i => i.toInt ≤ 2 ^ 31 - 1
  | .uintValue u => 2 ^ 31 ≤ u.toNat
  | .realValue _ => False
  | .stringValue s => WellFormed s.val
  | .arrayValue vs => vs.length ≤ 2147483648 ∧ ∀ v ∈ vs, Q v
  | .objectValue ms => ms.Pairwise (fun m m' => m.1 < m'.1) ∧
      ∀ m ∈ ms, (WellFormed m.1 ∧ m.1.length < 2 ^ 30) ∧ Q m.2

/-- Printable, with at most `n` levels. -/
def Printable : Nat → Value Double → Prop
  | 0 => PrintableValue fun _ => False
  | n + 1 => PrintableValue (Printable n)

theorem setMember_append {key : Bytes} (value : Value Double) {ms : List (Bytes × Value Double)}
    (h : ∀ m ∈ ms, m.1 < key) : setMember key value ms = ms ++ [(key, value)] := by
  induction ms with
  | nil => rfl
  | cons m ms ih =>
    have hlt : m.1 < key := h m (by simp)
    have hne : m.1 ≠ key := by
      intro heq
      rw [heq] at hlt
      exact List.lt_irrefl key hlt
    rw [setMember, if_neg hne, if_neg (List.lt_asymm hlt),
      ih fun m hm => h m (List.mem_cons_of_mem _ hm)]
    rfl

/-- Members that come in the order of their names are stored as they come. -/
theorem storeMembers_sorted (members ms : List (Bytes × Value Double))
    (h : (members ++ ms).Pairwise fun m m' => m.1 < m'.1) :
    storeMembers members ms = members ++ ms := by
  induction ms generalizing members with
  | nil => simp [storeMembers]
  | cons m ms ih =>
    have hlt : ∀ m' ∈ members, m'.1 < m.1 := fun m' hm' =>
      (List.pairwise_append.mp h).2.2 m' hm' m (by simp)
    have hsplit : members ++ m :: ms = (members ++ [m]) ++ ms := by simp
    rw [hsplit] at h ⊢
    rw [← ih _ h]
    unfold storeMembers
    rw [List.foldl_cons, setMember_append _ hlt]

theorem writeValue_valueText {libc : LibC Double} {P : Value Double → Bytes → Prop}
    {Q : Value Double → Prop} (hwrite : ∀ v, Q v → WritesText libc P v) {v : Value Double}
    (h : PrintableValue Q v) : WritesText libc (ValueText P) v := by
  intro w hw
  cases v with
  | nullValue => exact ⟨[], _, ws_nil, .null, by unfold writeValue; exact pushValue_writes _ w⟩
  | booleanValue b =>
    cases b with
    | true => exact ⟨[], _, ws_nil, .true_, by unfold writeValue; exact pushValue_writes _ w⟩
    | false => exact ⟨[], _, ws_nil, .false_, by unfold writeValue; exact pushValue_writes _ w⟩
  | intValue i => exact ⟨[], _, ws_nil, .int h, by unfold writeValue; exact pushValue_writes _ w⟩
  | uintValue u => exact ⟨[], _, ws_nil, .uint h, by unfold writeValue; exact pushValue_writes _ w⟩
  | realValue d => exact h.elim
  | stringValue s =>
    obtain ⟨t, hquoted, hbody⟩ := valueToQuotedStringN_body h
    refine ⟨[], _, ws_nil, .string hbody, ?_⟩
    unfold writeValue
    rw [hquoted]
    exact pushValue_writes _ w
  | arrayValue vs =>
    cases vs with
    | nil =>
      refine ⟨[], _, ws_nil, .array (Separated.nil ws_nil) (by simp), ?_⟩
      unfold writeValue
      exact pushValue_writes _ w
    | cons v vs =>
      obtain ⟨pre, t, post, hpre, hs, hpost, hwrites⟩ := nested_writes (ascii "[") (ascii "]")
        (fun w hw => writeElements_separated (fun v hv => hwrite v (h.2 v hv)) (by simp) hw) hw
      refine ⟨pre, _, hpre, .array (hs.append_ws hpost fun _ _ ht => ht.append_ws hpost) h.1, ?_⟩
      unfold writeValue
      simpa [ascii] using hwrites
  | objectValue ms =>
    cases ms with
    | nil =>
      refine ⟨[], _, ws_nil, .object (Separated.nil ws_nil), ?_⟩
      unfold writeValue
      exact pushValue_writes _ w
    | cons m ms =>
      obtain ⟨pre, t, post, hpre, hs, hpost, hwrites⟩ := nested_writes (ascii "\x7b") (ascii "\x7d")
        (fun w hw => writeMembers_separated (fun m hm => hwrite m.2 (h.2 m hm).2)
          (fun m hm => (h.2 m hm).1) (by simp) hw) hw
      have hobject := ValueText.object (hs.append_ws hpost fun _ _ ht => ht.append_ws hpost)
      rw [storeMembers_sorted [] _ h.1] at hobject
      refine ⟨pre, _, hpre, hobject, ?_⟩
      unfold writeValue
      simpa [ascii] using hwrites

theorem writeValue_text (libc : LibC Double) (n : Nat) (v : Value Double) (h : Printable n v) :
    WritesText libc (Text n) v := by
  induction n generalizing v with
  | zero => exact writeValue_valueText (fun _ hf => hf.elim) h
  | succ n ih => exact writeValue_valueText ih h

theorem parseFromStream_writeString (libc : LibC Double) {n : Nat} (hn : n < stackLimit)
    {v : Value Double} (h : Printable n v) :
    parseFromStream libc (writeString libc v) = .ok (true, v) := by
  obtain ⟨pre, t, hpre, ht, hwrites⟩ := writeValue_text libc n v h
    { sout_ := [], indentString_ := [], indented_ := true } (by decide)
  unfold writeString
  rw [hwrites.1, List.nil_append]
  have hparse := parseFromStream_text libc hn hpre (show Ws [] by decide) ht
  rwa [List.append_nil] at hparse

end FaceDetection.Json

import FaceDetection.Json.Tokens

/-!
# Texts of JSON values

`Text n v t`: `t` is a JSON text of `v`, nested at most `n` deep. The reader reads every such text back
to `v`, whatever white space stands in it.
-/

namespace FaceDetection.Json

variable {Double : Type}

/-! ## Reading a value -/

/-- `read` reads the text `t` as the value `v`, whatever it overwrites. -/
structure Reads (read : Value Double → Reader → Except Fault (Bool × Value Double × Reader))
    (v : Value Double) (t : Bytes) : Prop where
  head : ∃ c l, t = c :: l ∧ isSpace c = false ∧ c ≠ ch ']'
  run : ∀ (old : Value Double) {w rest : Bytes} {r : Reader}, Ws w → Follow rest →
    At (w ++ (t ++ rest)) r → ∃ r', read old r = .ok (true, v, r') ∧ At rest r'

/-- The cases of `readValue`, by the type of the first token. -/
def valueOfToken (libc : LibC Double) (levels : Nat) (token : Token) (old : Value Double) (r : Reader) :
    Except Fault (Bool × Value Double × Reader) :=
  match token.type_ with
  | .objectBegin => readObject (readValue libc levels) r
  | .arrayBegin => readArray (readValue libc levels) r
  | .number => pure (decodeNumberValue libc token old r)
  | .string => decodeStringValue token old r
  | .true_ => pure (true, .booleanValue true, r)
  | .false_ => pure (true, .booleanValue false, r)
  | .null => pure (true, .nullValue, r)
  | _ => pure (false, old, addError (ascii "Syntax error: value, object or array expected.") token r)

/-- A token that is a value, or that throws: `readValue` is what it does there. -/
theorem readValue_token_eq {libc : LibC Double} {levels : Nat} {old : Value Double} {r r1 : Reader}
    {token : Token} {result : Except Fault (Bool × Value Double × Reader)}
    (htoken : readToken r = .ok (token, r1)) (htype : token.type_ ≠ .comment)
    (hr1 : r1.commentsBefore_ = []) (hvalue : valueOfToken libc levels token old r1 = result)
    (hresult : ∀ v r2, result ≠ .ok (false, v, r2)) :
    readValue libc (levels + 1) old r =
      result >>= fun p => pure (p.1, p.2.1, { p.2.2 with lastValueEnd_ := some p.2.2.current_ }) := by
  rw [readValue, skipCommentTokens_eq htoken htype]
  simp only [ok_bind]
  unfold takeCommentsBefore
  rw [if_pos hr1]
  obtain ⟨type_, start_, end_⟩ := token
  unfold valueOfToken at hvalue
  simp only at hvalue ⊢
  subst hvalue
  cases type_ with
  | comment => exact absurd rfl htype
  | objectBegin | arrayBegin | number | string | true_ | false_ | null => rfl
  | _ => exact absurd rfl (hresult _ _)

theorem readValue_token {libc : LibC Double} {levels : Nat} {old v : Value Double}
    {r r1 r2 : Reader} {token : Token} {rest : Bytes} (htoken : readToken r = .ok (token, r1))
    (htype : token.type_ ≠ .comment) (hr1 : r1.commentsBefore_ = [])
    (hvalue : valueOfToken libc levels token old r1 = .ok (true, v, r2)) (hr2 : At rest r2) :
    ∃ r', readValue libc (levels + 1) old r = .ok (true, v, r') ∧ At rest r' := by
  rw [readValue_token_eq htoken htype hr1 hvalue (by simp)]
  exact ⟨{ r2 with lastValueEnd_ := some r2.current_ }, rfl, hr2⟩

theorem readValue_token_error {libc : LibC Double} {levels : Nat} {old : Value Double}
    {r r1 : Reader} {token : Token} {fault : Fault} (htoken : readToken r = .ok (token, r1))
    (htype : token.type_ ≠ .comment) (hr1 : r1.commentsBefore_ = [])
    (hvalue : valueOfToken libc levels token old r1 = .error fault) :
    readValue libc (levels + 1) old r = .error fault := by
  rw [readValue_token_eq htoken htype hr1 hvalue (by simp)]
  rfl

/-- A string of any length. -/
theorem reads_string (libc : LibC Double) (levels : Nat) {t s : Bytes} (ht : StringBody t s)
    {v : Value Double} (hv : Value.ofString s = .ok v) :
    Reads (readValue libc (levels + 1)) v (quoted t) := by
  refine ⟨⟨_, _, rfl, rfl, by decide⟩, ?_⟩
  intro old w rest r hw _ hr
  obtain ⟨r1, htoken, hr1⟩ := readToken_quoted hw ht hr
  refine readValue_token htoken (by simp) hr1.2 ?_ hr1
  unfold valueOfToken decodeStringValue
  simp only [decodeString_quoted ht, hv]
  rfl

theorem readValue_string_error (libc : LibC Double) (levels : Nat) {t s : Bytes}
    (ht : StringBody t s) {fault : Fault}
    (hs : (Value.ofString s : Except Fault (Value Double)) = .error fault) (old : Value Double)
    {w rest : Bytes} (hw : Ws w) {r : Reader} (hr : At (w ++ (quoted t ++ rest)) r) :
    readValue libc (levels + 1) old r = .error fault := by
  obtain ⟨r1, htoken, hr1⟩ := readToken_quoted hw ht hr
  apply readValue_token_error htoken (by simp) hr1.2
  unfold valueOfToken decodeStringValue
  simp only [decodeString_quoted ht, hs]
  rfl

/-- As many arrays in one another as the stack limit leaves nodes, and something in the last. -/
theorem readValue_deep (libc : LibC Double) (levels : Nat) {s : Bytes}
    (hs : (s.dropWhile isSpace).head? ≠ some (ch ']')) (old : Value Double) {r : Reader}
    (hr : At (List.replicate levels (ch '[') ++ s) r) :
    readValue libc levels old r = .error (.runtimeError "Exceeded stackLimit in readValue().") := by
  induction levels generalizing old r with
  | zero => rfl
  | succ levels ih =>
    rw [List.replicate_succ, List.cons_append] at hr
    obtain ⟨r1, htoken, hr1⟩ :=
      readToken_punctuation .arrayBegin ws_nil (by decide) hr fun _ => rfl
    apply readValue_token_error htoken (by simp) hr1.2
    have hinner : (skipSpaces r1).current_.head? ≠ some (ch ']') ∧
        readValue libc levels .nullValue (skipSpaces r1) =
          .error (.runtimeError "Exceeded stackLimit in readValue().") := by
      cases levels with
      | zero =>
        refine ⟨?_, rfl⟩
        unfold skipSpaces
        rw [hr1.1]
        exact hs
      | succ levels =>
        rw [List.replicate_succ, List.cons_append] at hr1 ih
        have hspaces := skipSpaces_at ws_nil (by decide) hr1
        exact ⟨by rw [hspaces.1, List.head?_cons]; decide, ih _ hspaces⟩
    unfold valueOfToken readArray
    simp only [if_neg hinner.1]
    unfold readArrayLoop
    rw [if_neg (by simp), hinner.2]
    rfl

/-! ## Containers -/

/-- Texts of the elements of `l` with a comma between any two. -/
inductive Separated {α : Type} (P : α → Bytes → Prop) : List α → Bytes → Prop
  | nil {w : Bytes} (hw : Ws w) : Separated P [] w
  | single {a : α} {t : Bytes} (h : P a t) : Separated P [a] t
  | cons {a b : α} {l : List α} {t ts : Bytes} (h : P a t) (hs : Separated P (b :: l) ts) :
      Separated P (a :: b :: l) (t ++ ch ',' :: ts)

/-- A value text with white space around it. -/
def ElementText (P : Value Double → Bytes → Prop) (v : Value Double) (t : Bytes) : Prop :=
  ∃ w body w', Ws w ∧ Ws w' ∧ P v body ∧ t = w ++ (body ++ w')

/-- A name, a colon and a value text, with white space around each. -/
def MemberText (P : Value Double → Bytes → Prop) (m : Bytes × Value Double) (t : Bytes) : Prop :=
  ∃ w name w1 w2 body w', Ws w ∧ Ws w1 ∧ Ws w2 ∧ Ws w' ∧ StringBody name m.1 ∧
    m.1.length < 2 ^ 30 ∧ P m.2 body ∧
    t = w ++ (quoted name ++ (w1 ++ (ch ':' :: (w2 ++ (body ++ w')))))

/-- No white space, and a name that needs no escapes. -/
theorem memberText_plain {P : Value Double → Bytes → Prop} {name : Bytes} (hname : StringBody name name)
    (hlength : name.length < 2 ^ 30) {v : Value Double} {t : Bytes} (h : P v t) :
    MemberText P (name, v) (quoted name ++ ch ':' :: t) :=
  ⟨[], name, [], [], t, [], ws_nil, ws_nil, ws_nil, ws_nil, hname, hlength, h, by simp⟩

theorem Separated.length_le {α : Type} {P : α → Bytes → Prop} {l : List α} {t : Bytes}
    (h : Separated P l t) : l.length ≤ t.length + 1 := by
  induction h with
  | nil hw => simp
  | single h => simp
  | cons h hs ih =>
    simp only [List.length_cons, List.length_append] at ih ⊢
    omega

/-- White space in front of the first element can go. -/
theorem Separated.strip {P : Value Double → Bytes → Prop} {v : Value Double}
    {vs : List (Value Double)} {t : Bytes}
    (hhead : ∀ v t, P v t → ∃ c l, t = c :: l ∧ isSpace c = false ∧ c ≠ ch ']')
    (h : Separated (ElementText P) (v :: vs) t) :
    ∃ w c l, t = w ++ c :: l ∧ Ws w ∧ isSpace c = false ∧ c ≠ ch ']' ∧
      Separated (ElementText P) (v :: vs) (c :: l) := by
  cases h with
  | single h =>
    obtain ⟨w, body, w', hw, hw', hv, rfl⟩ := h
    obtain ⟨c, l, rfl, hc, hne⟩ := hhead _ _ hv
    exact ⟨w, c, l ++ w', rfl, hw, hc, hne, .single ⟨[], c :: l, w', ws_nil, hw', hv, rfl⟩⟩
  | @cons _ _ _ _ ts h hs =>
    obtain ⟨w, body, w', hw, hw', hv, rfl⟩ := h
    obtain ⟨c, l, rfl, hc, hne⟩ := hhead _ _ hv
    exact ⟨w, c, (l ++ w') ++ ch ',' :: ts, by simp, hw, hc, hne,
      .cons ⟨[], c :: l, w', ws_nil, hw', hv, rfl⟩ hs⟩

theorem isSpace_follow : ∀ c, isSpace c = true →
    isDigit c = false ∧ c ≠ ch '.' ∧ c ≠ ch 'e' ∧ c ≠ ch 'E' := by
  intro c hc
  unfold isSpace at hc
  simp only [decide_eq_true_eq] at hc
  rcases hc with rfl | rfl | rfl | rfl <;> decide

theorem follow_ws {w : Bytes} (hw : Ws w) {rest : Bytes} (hrest : Follow rest) :
    Follow (w ++ rest) := by
  cases w with
  | nil => exact hrest
  | cons c w =>
    intro d hd
    simp only [List.cons_append, List.head?_cons, Option.mem_some_iff] at hd
    subst hd
    exact isSpace_follow c (hw c (by simp))

theorem follow_of_head {c : UInt8} (hc : isDigit c = false ∧ c ≠ ch '.' ∧ c ≠ ch 'e' ∧ c ≠ ch 'E')
    (rest : Bytes) : Follow (c :: rest) := by
  intro d hd
  simp only [List.head?_cons, Option.mem_some_iff] at hd
  subst hd
  exact hc

/-- A member whose value throws. -/
theorem readObjectLoop_member_error {w nameText key w1 w2 body : Bytes} (hw : Ws w) (hw1 : Ws w1)
    (hname : StringBody nameText key) (hshort : key.length < 2 ^ 30) {fault : Fault}
    {readValue : Value Double → Reader → Except Fault (Bool × Value Double × Reader)}
    (hvalue : ∀ old r, At (w2 ++ body) r → readValue old r = .error fault) (fuel : Nat) (name : Bytes)
    (members : List (Bytes × Value Double)) {r : Reader}
    (hr : At (w ++ (quoted nameText ++ (w1 ++ (ch ':' :: (w2 ++ body))))) r) :
    readObjectLoop readValue (fuel + 1) name members r = .error fault := by
  obtain ⟨r1, htokenName, hr1⟩ := readToken_quoted hw hname hr
  obtain ⟨r2, hcolon, hr2⟩ := readToken_punctuation .memberSeparator hw1 rfl hr1 fun _ => rfl
  have hskip := skipCommentTokens_eq htokenName (by simp)
  have hthrows := hvalue ((findMember key members).getD .nullValue) r2 hr2
  rw [readObjectLoop, hskip, ok_bind]
  simp only [reduceCtorEq, false_and, if_false, ne_eq, not_true_eq_false, decodeString_quoted hname,
    hcolon, ok_bind, hthrows]
  rw [if_neg (by omega)]
  rfl

section Loops

variable {readValue : Value Double → Reader → Except Fault (Bool × Value Double × Reader)}
  {P : Value Double → Bytes → Prop} (hread : ∀ v t, P v t → Reads readValue v t)

include hread

theorem readArrayLoop_separated {vs : List (Value Double)} {t : Bytes}
    (h : Separated (ElementText P) vs t) (hne : vs ≠ []) (fuel : Nat) (hfuel : vs.length ≤ fuel)
    (elements : List (Value Double)) (hlen : elements.length + vs.length ≤ 2147483648)
    {rest : Bytes} {r : Reader} (hr : At (t ++ ch ']' :: rest) r) :
    ∃ r', readArrayLoop readValue fuel elements r = .ok (true, elements ++ vs, r') ∧ At rest r' := by
  induction h generalizing fuel elements r with
  | nil hw => exact absurd rfl hne
  | single h =>
    obtain ⟨w, body, w', hw, hw', hv, rfl⟩ := h
    obtain ⟨fuel, rfl⟩ : ∃ f, fuel = f + 1 := ⟨fuel - 1, by simp at hfuel; omega⟩
    have hfollow : Follow (w' ++ ch ']' :: rest) := follow_ws hw' (follow_of_head (by decide) rest)
    obtain ⟨r1, hvalue, hr1⟩ := (hread _ _ hv).run .nullValue hw hfollow
      (by simpa only [List.append_assoc] using hr)
    obtain ⟨r2, htoken, hr2⟩ := readToken_punctuation .arrayEnd hw' rfl hr1 fun _ => rfl
    have hskip := skipCommentTokens_eq htoken (by simp)
    refine ⟨r2, ?_, hr2⟩
    simp only [List.length_singleton] at hlen
    rw [readArrayLoop, if_neg (by omega), hvalue, ok_bind]
    simp only [Bool.not_true, Bool.false_eq_true, if_false]
    rw [hskip]
    rfl
  | @cons v v' vs t ts h hs ih =>
    obtain ⟨w, body, w', hw, hw', hv, rfl⟩ := h
    obtain ⟨fuel, rfl⟩ : ∃ f, fuel = f + 1 := ⟨fuel - 1, by simp at hfuel; omega⟩
    have hfollow : ∀ l, Follow (w' ++ ch ',' :: l) := fun l =>
      follow_ws hw' (follow_of_head (by decide) l)
    obtain ⟨r1, hvalue, hr1⟩ := (hread _ _ hv).run .nullValue hw (hfollow _)
      (by simpa only [List.append_assoc, List.cons_append] using hr)
    obtain ⟨r2, htoken, hr2⟩ := readToken_punctuation .arraySeparator hw' rfl hr1
      fun _ => rfl
    have hskip := skipCommentTokens_eq htoken (by simp)
    simp only [List.length_cons] at hlen hfuel
    obtain ⟨r', hloop, hr'⟩ := ih (by simp) fuel (by simp only [List.length_cons]; omega)
      (elements ++ [v]) (by simp only [List.length_append, List.length_cons, List.length_nil]; omega)
      hr2
    refine ⟨r', ?_, hr'⟩
    rw [readArrayLoop, if_neg (by omega), hvalue, ok_bind]
    simp only [Bool.not_true, Bool.false_eq_true, if_false]
    rw [hskip, ok_bind]
    simp only [ne_eq, not_true_eq_false, false_and, if_false, reduceCtorEq]
    rw [hloop, List.append_assoc]
    rfl

theorem readArray_separated {vs : List (Value Double)} {t : Bytes}
    (h : Separated (ElementText P) vs t) (hlen : vs.length ≤ 2147483648) {rest : Bytes} {r : Reader}
    (hr : At (t ++ ch ']' :: rest) r) :
    ∃ r', readArray readValue r = .ok (true, .arrayValue vs, r') ∧ At rest r' := by
  cases vs with
  | nil =>
    cases h with
    | nil hw =>
      have hspaces := skipSpaces_at hw rfl hr
      obtain ⟨r', htoken, hr'⟩ := readToken_punctuation .arrayEnd ws_nil rfl
        hspaces fun _ => rfl
      refine ⟨r', ?_, hr'⟩
      unfold readArray
      simp only
      rw [if_pos (by rw [hspaces.1]; rfl), htoken]
      rfl
  | cons v vs =>
    -- A value comes first, so the loop starts where the white space ends.
    obtain ⟨w, c, l, rfl, hw, hc, hne, hs⟩ := h.strip fun v t hv => (hread v t hv).head
    rw [List.append_assoc, List.cons_append] at hr
    have hspaces := skipSpaces_at hw hc hr
    have hfuel : (v :: vs).length ≤ (skipSpaces r).current_.length + 1 := by
      have hle := hs.length_le
      rw [hspaces.1]
      simp only [List.length_cons, List.length_append] at hle ⊢
      omega
    obtain ⟨r', hloop, hr'⟩ := readArrayLoop_separated hread hs (by simp) _ hfuel []
      (by simpa using hlen) hspaces
    refine ⟨r', ?_, hr'⟩
    unfold readArray
    simp only
    rw [if_neg (by rw [hspaces.1]; simpa using hne), hloop]
    rfl

/-- What the loop of `readObject` makes of the members it reads. -/
def storeMembers (members : List (Bytes × Value Double)) (ms : List (Bytes × Value Double)) :
    List (Bytes × Value Double) :=
  ms.foldl (fun members m => setMember m.1 m.2 members) members

/-- One round of `readObject`: a member, and the byte `c` behind it. -/
theorem readObjectLoop_member {m : Bytes × Value Double} {t : Bytes} (h : MemberText P m t)
    {c : UInt8} {l : Bytes} {type_ : TokenType} (htype : type_ = .objectEnd ∨ type_ = .arraySeparator)
    (hc : isSpace c = false) (hfollow : Follow (c :: l))
    (hbody : ∀ r, readTokenBody (c :: l) c r = .ok (type_, true, r)) (fuel : Nat) (name : Bytes)
    (members : List (Bytes × Value Double)) {r : Reader} (hr : At (t ++ c :: l) r) :
    ∃ r', At l r' ∧ readObjectLoop readValue (fuel + 1) name members r =
      if type_ = .objectEnd then .ok (true, setMember m.1 m.2 members, r')
      else readObjectLoop readValue fuel m.1 (setMember m.1 m.2 members) r' := by
  obtain ⟨w, nameText, w1, w2, body, w', hw, hw1, hw2, hw', hname, hshort, hv, rfl⟩ := h
  simp only [List.append_assoc, List.cons_append] at hr
  obtain ⟨r1, htokenName, hr1⟩ := readToken_quoted hw hname hr
  obtain ⟨r2, hcolon, hr2⟩ := readToken_punctuation .memberSeparator hw1 rfl hr1 fun _ => rfl
  obtain ⟨r3, hvalue, hr3⟩ := (hread _ _ hv).run ((findMember m.1 members).getD .nullValue) hw2
    (follow_ws hw' hfollow) hr2
  obtain ⟨r', hcomma, hr'⟩ := readToken_punctuation type_ hw' hc hr3 hbody
  have hskip := skipCommentTokens_eq htokenName (by simp)
  refine ⟨r', hr', ?_⟩
  rw [readObjectLoop, hskip, ok_bind]
  simp only [reduceCtorEq, false_and, if_false, ne_eq, not_true_eq_false, decodeString_quoted hname,
    hcolon, ok_bind, hvalue, Bool.not_true, Bool.false_eq_true, hcomma]
  rw [if_neg (by omega)]
  rcases htype with rfl | rfl
  · rfl
  · rfl

theorem readObjectLoop_separated {ms : List (Bytes × Value Double)} {t : Bytes}
    (h : Separated (MemberText P) ms t) (fuel : Nat) (hfuel : ms.length < fuel)
    (name : Bytes) (hname : ms = [] → name = []) (members : List (Bytes × Value Double))
    {rest : Bytes} {r : Reader} (hr : At (t ++ ch '\x7d' :: rest) r) :
    ∃ r', readObjectLoop readValue fuel name members r = .ok (true, storeMembers members ms, r') ∧
      At rest r' := by
  induction h generalizing fuel name members r with
  | nil hw =>
    obtain ⟨fuel, rfl⟩ : ∃ f, fuel = f + 1 := ⟨fuel - 1, by omega⟩
    obtain ⟨r', htoken, hr'⟩ := readToken_punctuation .objectEnd hw rfl hr fun _ => rfl
    refine ⟨r', ?_, hr'⟩
    rw [readObjectLoop, skipCommentTokens_eq htoken (by simp), ok_bind]
    simp only
    rw [if_pos ⟨trivial, hname rfl⟩]
    rfl
  | single h =>
    obtain ⟨fuel, rfl⟩ : ∃ f, fuel = f + 1 := ⟨fuel - 1, by omega⟩
    obtain ⟨r', hr', hloop⟩ := readObjectLoop_member hread h (Or.inl rfl) rfl
      (follow_of_head (by decide) rest) (fun _ => rfl) fuel name members hr
    exact ⟨r', by rw [hloop]; rfl, hr'⟩
  | @cons m m' ms t ts h hs ih =>
    obtain ⟨fuel, rfl⟩ : ∃ f, fuel = f + 1 := ⟨fuel - 1, by omega⟩
    rw [List.append_assoc, List.cons_append] at hr
    obtain ⟨r1, hr1, hloop⟩ := readObjectLoop_member hread h (Or.inr rfl) rfl
      (follow_of_head (by decide) _) (fun _ => rfl) fuel name members hr
    simp only [List.length_cons] at hfuel
    obtain ⟨r', hrest, hr'⟩ := ih fuel (by simp only [List.length_cons]; omega) m.1 (by simp)
      (setMember m.1 m.2 members) hr1
    refine ⟨r', ?_, hr'⟩
    rw [hloop, if_neg (by simp), hrest]
    rfl

theorem readObject_separated {ms : List (Bytes × Value Double)} {t : Bytes}
    (h : Separated (MemberText P) ms t) {rest : Bytes} {r : Reader}
    (hr : At (t ++ ch '\x7d' :: rest) r) :
    ∃ r', readObject readValue r = .ok (true, .objectValue (storeMembers [] ms), r') ∧ At rest r' := by
  have hfuel : ms.length < r.current_.length + 1 := by
    have hle := h.length_le
    rw [hr.1]
    simp only [List.length_append, List.length_cons]
    omega
  obtain ⟨r', hloop, hr'⟩ := readObjectLoop_separated hread h _ hfuel [] (fun _ => rfl) [] hr
  refine ⟨r', ?_, hr'⟩
  unfold readObject
  rw [hloop]
  rfl

end Loops

/-! ## Values -/

/-- The texts of a value, when `P` holds of the texts of the values in it. -/
inductive ValueText (P : Value Double → Bytes → Prop) : Value Double → Bytes → Prop
  | null : ValueText P .nullValue (ascii "null")
  | true_ : ValueText P (.booleanValue true) (ascii "true")
  | false_ : ValueText P (.booleanValue false) (ascii "false")
  | int {i : Int64} (hi : i.toInt ≤ 2 ^ 31 - 1) : ValueText P (.intValue i) (valueToStringInt i)
  | uint {u : UInt64} (hu : 2 ^ 31 ≤ u.toNat) : ValueText P (.uintValue u) (valueToStringUInt u)
  | string {s : PrefixedString} {t : Bytes} (h : StringBody t s.val) :
      ValueText P (.stringValue s) (quoted t)
  | array {vs : List (Value Double)} {t : Bytes} (h : Separated (ElementText P) vs t)
      (hlen : vs.length ≤ 2147483648) : ValueText P (.arrayValue vs) (ch '[' :: (t ++ [ch ']']))
  | object {ms : List (Bytes × Value Double)} {t : Bytes} (h : Separated (MemberText P) ms t) :
      ValueText P (.objectValue (storeMembers [] ms)) (ch '\x7b' :: (t ++ [ch '\x7d']))

/-- A JSON text of `v`, nested at most `n` deep. -/
def Text : Nat → Value Double → Bytes → Prop
  | 0 => ValueText fun _ _ => False
  | n + 1 => ValueText (Text n)

theorem uintToString_start (n : Nat) :
    ∃ c l, uintToString n = c :: l ∧ isSpace c = false ∧ c ≠ ch ']' := by
  have hall := isDigit_uintToString n
  cases hdigits : uintToString n with
  | nil => simp [uintToString] at hdigits
  | cons c l =>
    have hc := hall c (by simp [hdigits])
    refine ⟨c, l, rfl, isSpace_digit hc, ?_⟩
    rintro rfl
    exact absurd hc (by decide)

theorem valueText_head {P : Value Double → Bytes → Prop} {v : Value Double} {t : Bytes}
    (h : ValueText P v t) : ∃ c l, t = c :: l ∧ isSpace c = false ∧ c ≠ ch ']' := by
  cases h with
  | null => exact ⟨_, _, rfl, rfl, by decide⟩
  | true_ => exact ⟨_, _, rfl, rfl, by decide⟩
  | false_ => exact ⟨_, _, rfl, rfl, by decide⟩
  | @int i hi =>
    rw [valueToStringInt_eq]
    split_ifs
    · exact ⟨_, _, rfl, rfl, by decide⟩
    · exact uintToString_start _
  | @uint u hu => exact uintToString_start u.toNat
  | string h => exact ⟨_, _, rfl, rfl, by decide⟩
  | array h hlen => exact ⟨_, _, rfl, rfl, by decide⟩
  | object h => exact ⟨_, _, rfl, rfl, by decide⟩

theorem readValue_valueText (libc : LibC Double) {levels : Nat} {P : Value Double → Bytes → Prop}
    (hread : ∀ v t, P v t → Reads (readValue libc levels) v t) {v : Value Double} {t : Bytes}
    (h : ValueText P v t) : Reads (readValue libc (levels + 1)) v t := by
  refine ⟨valueText_head h, ?_⟩
  intro old w rest r hw hfollow hr
  cases h with
  | null =>
    obtain ⟨r1, htoken, hr1⟩ := readToken_word .null hw rfl hr fun _ _ => rfl
    exact readValue_token htoken (by simp) hr1.2 rfl hr1
  | true_ =>
    obtain ⟨r1, htoken, hr1⟩ := readToken_word .true_ hw rfl hr fun _ _ => rfl
    exact readValue_token htoken (by simp) hr1.2 rfl hr1
  | false_ =>
    obtain ⟨r1, htoken, hr1⟩ := readToken_word .false_ hw rfl hr fun _ _ => rfl
    exact readValue_token htoken (by simp) hr1.2 rfl hr1
  | @int i hi =>
    have hlow := i.le_toInt
    rw [valueToStringInt_eq] at hr
    split_ifs at hr with hneg
    · have hn : ((-i.toInt).toNat : Int) = -i.toInt := Int.toNat_of_nonneg (by omega)
      obtain ⟨r1, htoken, hr1⟩ := readToken_negative hw _ hfollow hr
      refine readValue_token htoken (by simp) hr1.2 ?_ hr1
      unfold valueOfToken decodeNumberValue
      simp only [decodeNumber_negative libc (show (-i.toInt).toNat ≤ 2 ^ 63 by omega), hn, Int.neg_neg,
        Int64.ofInt_toInt]
      rfl
    · have hn : (i.toInt.toNat : Int) = i.toInt := Int.toNat_of_nonneg (by omega)
      obtain ⟨r1, htoken, hr1⟩ := readToken_uint hw _ hfollow hr
      refine readValue_token htoken (by simp) hr1.2 ?_ hr1
      unfold valueOfToken decodeNumberValue
      simp only [decodeNumber_uint libc (show i.toInt.toNat ≤ 2 ^ 64 - 1 by omega),
        if_pos (show i.toInt.toNat ≤ 2 ^ 31 - 1 by omega), hn, Int64.ofInt_toInt]
      rfl
  | @uint u hu =>
    have hlt := u.toNat_lt
    unfold valueToStringUInt at hr
    obtain ⟨r1, htoken, hr1⟩ := readToken_uint hw _ hfollow hr
    refine readValue_token htoken (by simp) hr1.2 ?_ hr1
    unfold valueOfToken decodeNumberValue
    simp only [decodeNumber_uint libc (show u.toNat ≤ 2 ^ 64 - 1 by omega),
      if_neg (show ¬ u.toNat ≤ 2 ^ 31 - 1 by omega), UInt64.ofNat_toNat]
    rfl
  | @string s t h =>
    exact (reads_string libc levels h (Value.ofString_ok s.val s.property)).run old hw hfollow hr
  | array h hlen =>
    simp only [List.cons_append, List.append_assoc, List.nil_append] at hr
    obtain ⟨r1, htoken, hr1⟩ := readToken_punctuation .arrayBegin hw rfl hr fun _ => rfl
    obtain ⟨r2, hvalue, hr2⟩ := readArray_separated hread h hlen hr1
    exact readValue_token htoken (by simp) hr1.2 hvalue hr2
  | object h =>
    simp only [List.cons_append, List.append_assoc, List.nil_append] at hr
    obtain ⟨r1, htoken, hr1⟩ := readToken_punctuation .objectBegin hw rfl hr fun _ => rfl
    obtain ⟨r2, hvalue, hr2⟩ := readObject_separated hread h hr1
    exact readValue_token htoken (by simp) hr1.2 hvalue hr2

theorem readValue_text (libc : LibC Double) {n levels : Nat} (hn : n < levels) {v : Value Double}
    {t : Bytes} (h : Text n v t) : Reads (readValue libc levels) v t := by
  induction n generalizing levels v t with
  | zero =>
    obtain ⟨levels, rfl⟩ : ∃ k, levels = k + 1 := ⟨levels - 1, by omega⟩
    exact readValue_valueText libc (fun _ _ hf => hf.elim) h
  | succ n ih =>
    obtain ⟨levels, rfl⟩ : ∃ k, levels = k + 1 := ⟨levels - 1, by omega⟩
    exact readValue_valueText libc (fun _ _ hv => ih (by omega) hv) h

theorem readToken_end {w : Bytes} (hw : Ws w) {r : Reader} (hr : At w r) :
    ∃ r', readToken r = .ok ({ type_ := .endOfStream, start_ := [], end_ := [] }, r') ∧ At [] r' := by
  have hspaces : skipSpaces r = { r with current_ := [] } := by
    unfold skipSpaces
    rw [hr.1, List.dropWhile_eq_nil_iff.mpr hw]
  refine ⟨{ r with current_ := [] }, ?_, rfl, hr.2⟩
  unfold readToken
  rw [hspaces]
  rfl

/-- A document that the reader reads as a value parses to that value. -/
theorem parseFromStream_reads (libc : LibC Double) {v : Value Double} {w t w' : Bytes} (hw : Ws w)
    (hw' : Ws w') (h : Reads (readValue libc stackLimit) v t) :
    parseFromStream libc (w ++ (t ++ w')) = .ok (true, v) := by
  have hstart : At (w ++ (t ++ w')) (Reader.start (w ++ (t ++ w'))) := ⟨rfl, rfl⟩
  have hfollow : Follow w' := by
    have hnil : Follow [] := by simp [Follow]
    have h := follow_ws hw' hnil
    rwa [List.append_nil] at h
  obtain ⟨r1, hvalue, hr1⟩ := h.run .nullValue hw hfollow hstart
  obtain ⟨r2, htoken, hr2⟩ := readToken_end hw' hr1
  unfold parseFromStream parse
  unfold Reader.start at hvalue
  simp only
  rw [hvalue, ok_bind]
  simp only [skipCommentTokens_eq htoken (by simp), ok_bind]
  rw [if_neg (by simp [hr2.2])]
  rfl

theorem parseFromStream_text (libc : LibC Double) {n : Nat} (hn : n < stackLimit) {v : Value Double}
    {w t w' : Bytes} (hw : Ws w) (hw' : Ws w') (h : Text n v t) :
    parseFromStream libc (w ++ (t ++ w')) = .ok (true, v) :=
  parseFromStream_reads libc hw hw' (readValue_text libc hn h)

end FaceDetection.Json

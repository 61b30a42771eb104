import FaceDetection.Ends
import FaceDetection.Json.Marks

/-!
# The reader ends

Each token but the end of the stream takes at least one byte, so the rounds that the model gives a
loop are never used up. The same walk shows that a read fails exactly when it records an error, and
that on a tame document none of the reader's own guards throws.
-/

namespace FaceDetection.Json

variable {Double : Type}

/-! ## What a step of the reader does -/

/-- What the walk marks from where the reader is, when that is between tokens. -/
def Reader.marks (r : Reader) : List Mark := Json.marks .code r.current_

/-- The text and the pending comments give no guard but the stack limit a reason to throw: no `'` starts
a comment. `readToken` lets `'` fall through to `/`, and `Value::setComment` rejects such a comment
later. -/
structure Tame (r : Reader) : Prop where
  short : r.current_.length < 2 ^ 30
  quoteFree : .quoteComment ∉ r.marks
  pending : ∀ c ∈ r.commentsBefore_.head?, c = ch '/'

/-- `r'` is `r` further down the document, with the same errors. -/
structure Moved (r r' : Reader) : Prop where
  suffix : r'.current_ <:+ r.current_
  errors : r'.errors_ = r.errors_
  tame : Tame r → Tame r'

theorem Moved.refl (r : Reader) : Moved r r := ⟨List.suffix_refl _, rfl, id⟩

theorem Moved.trans {r r' r'' : Reader} (h : Moved r r') (h' : Moved r' r'') : Moved r r'' :=
  ⟨h'.suffix.trans h.suffix, h'.errors.trans h.errors, fun ht => h'.tame (h.tame ht)⟩

theorem Moved.length_le {r r' : Reader} (h : Moved r r') : r'.current_.length ≤ r.current_.length :=
  h.suffix.length_le

theorem moved_of_marks {r : Reader} {current : Location} (ms : List Mark)
    (h : current <:+ r.current_) (hm : r.marks = ms ++ marks .code current) :
    Moved r { r with current_ := current } := by
  refine ⟨h, rfl, fun ht => ⟨lt_of_le_of_lt h.length_le ht.short, ?_, ht.pending⟩⟩
  intro hquote
  apply ht.quoteFree
  rw [hm]
  exact List.mem_append_right ms hquote

/-- The reader has `before` open on the way in, above what encloses them, and `after` on the way out. -/
structure Passed (before after : List Bracket) (r r' : Reader) : Prop extends Moved r r' where
  within : ∀ limit outer, Within limit (before ++ outer) r.marks →
    Within limit (after ++ outer) r'.marks

theorem Passed.refl (open_ : List Bracket) (r : Reader) : Passed open_ open_ r r :=
  ⟨Moved.refl r, fun _ _ => id⟩

theorem Passed.trans {before between after : List Bracket} {r r' r'' : Reader}
    (h : Passed before between r r') (h' : Passed between after r' r'') :
    Passed before after r r'' :=
  ⟨h.toMoved.trans h'.toMoved, fun limit outer hw => h'.within limit outer (h.within limit outer hw)⟩

/-- What leaves nothing open and closes nothing does so inside of a bracket too. -/
theorem Passed.inside {r r' : Reader} (h : Passed [] [] r r') (open_ : List Bracket) :
    Passed open_ open_ r r' :=
  ⟨h.toMoved, fun limit outer => h.within limit (open_ ++ outer)⟩

theorem passed_of_marks {r : Reader} {current : Location} (h : current <:+ r.current_)
    (hm : r.marks = marks .code current) : Passed [] [] r { r with current_ := current } :=
  ⟨moved_of_marks [] h hm, fun _ _ hw => by rwa [hm] at hw⟩

theorem passed_opening {r : Reader} {rest : Location} {bracket : Bracket} (h : rest <:+ r.current_)
    (hm : r.marks = .opening bracket :: marks .code rest) :
    Passed [] [bracket] r { r with current_ := rest } := by
  refine ⟨moved_of_marks [.opening bracket] h hm, fun limit outer hw => ?_⟩
  rw [hm] at hw
  exact hw.opening

theorem passed_closing {r : Reader} {rest : Location} {bracket : Bracket} (h : rest <:+ r.current_)
    (hm : r.marks = .closing bracket :: marks .code rest) :
    Passed [bracket] [] r { r with current_ := rest } := by
  refine ⟨moved_of_marks [.closing bracket] h hm, fun limit outer hw => ?_⟩
  rw [hm] at hw
  exact hw.closing

theorem passed_closing_other {r : Reader} {rest : Location} {bracket other : Bracket}
    (h : rest <:+ r.current_) (hm : r.marks = .closing other :: marks .code rest)
    (hne : other ≠ bracket) : Passed [bracket] [bracket] r { r with current_ := rest } := by
  refine ⟨moved_of_marks [.closing other] h hm, fun limit outer hw => ?_⟩
  rw [hm] at hw
  exact hw.closing_other hne

/-! ## Characters and comments -/

theorem skipSpaces_marks (r : Reader) : (skipSpaces r).marks = r.marks := marks_skipSpaces _

theorem skipSpaces_passed (r : Reader) : Passed [] [] r (skipSpaces r) :=
  passed_of_marks (List.dropWhile_suffix _) (skipSpaces_marks r).symm

theorem cStyleCommentStop_suffix (l : Location) : cStyleCommentStop l <:+ l := by
  induction l using cStyleCommentStop.induct with
  | case1 c d rest h => rw [cStyleCommentStop, if_pos h]; exact List.suffix_cons c _
  | case2 c d rest h ih => rw [cStyleCommentStop, if_neg h]; exact ih.trans (List.suffix_cons c _)
  | case3 rest h => rw [cStyleCommentStop]; exact h

theorem cppStyleCommentStop_suffix (l : Location) : cppStyleCommentStop l <:+ l := by
  induction l with
  | nil => exact List.suffix_refl _
  | cons c rest ih =>
    unfold cppStyleCommentStop
    split_ifs
    · exact List.suffix_cons c rest
    · split
      · split_ifs
        · exact (List.suffix_cons _ _).trans (List.suffix_cons c _)
        · exact List.suffix_cons c _
      · exact List.nil_suffix
    · exact ih.trans (List.suffix_cons c rest)

/-- What the reader does behind a `/`, or behind a `'` if `quote`. -/
theorem readCommentText_marks (quote : Bool) (r : Reader) :
    ∃ current ms, (readCommentText (getNextChar r).1 (getNextChar r).2).2 =
        { r with current_ := current } ∧
      current <:+ r.current_ ∧ marks (.slash quote) r.current_ = ms ++ marks .code current ∧
        (∀ m ∈ ms, m = .quoteComment) ∧
          ((readCommentText (getNextChar r).1 (getNextChar r).2).1 = true → quote = true →
            .quoteComment ∈ ms) := by
  have hmark : ∀ m ∈ quoteMark quote, m = .quoteComment := by
    cases quote <;> simp [quoteMark]
  have hquoted : quote = true → .quoteComment ∈ quoteMark quote := by
    rintro rfl
    simp [quoteMark]
  unfold getNextChar readCommentText
  cases hcur : r.current_ with
  | nil =>
    refine ⟨[], [], ?_, List.suffix_refl _, by simp, by simp, ?_⟩
    · cases r
      cases hcur
      rfl
    · intro hfalse
      cases hfalse
  | cons d rest =>
    simp only
    rw [marks_slash]
    split_ifs with hstar hslash
    · refine ⟨(cStyleCommentStop rest).tail, quoteMark quote, ?_, ?_, ?_, hmark, fun _ => hquoted⟩
      · unfold readCStyleComment getNextChar
        cases cStyleCommentStop rest <;> rfl
      · exact (List.tail_suffix _).trans ((cStyleCommentStop_suffix rest).trans (List.suffix_cons d rest))
      · rw [marks_cStyleComment]
    · refine ⟨cppStyleCommentStop rest, quoteMark quote, rfl, ?_, ?_, hmark, fun _ => hquoted⟩
      · exact (cppStyleCommentStop_suffix rest).trans (List.suffix_cons d rest)
      · rw [marks_cppStyleComment]
    · exact ⟨rest, [], rfl, List.suffix_cons d rest, rfl, by simp, by simp⟩

theorem normalizeEOL_head {c : UInt8} (hc : c ≠ ch '\r') (l : Bytes) :
    (normalizeEOL (c :: l)).head? = some c := by
  cases l with
  | nil => simp [normalizeEOL, hc]
  | cons d l => simp [normalizeEOL, hc]

theorem setComment_ends (comment : Bytes) :
    Ends (comment.head? = some (ch '/')) (setComment comment) fun _ => True := by
  cases comment with
  | nil => exact Ends.error (by simp) (by simp)
  | cons c l =>
    cases l with
    | nil =>
      unfold setComment
      by_cases hc : c = ch '\n'
      · subst hc
        exact Ends.error (by simp) (by decide)
      · have hlast : [c].getLast? ≠ some (ch '\n') := by simpa using hc
        simp only [if_neg hlast]
        split_ifs with hslash
        · exact Ends.ok trivial
        · exact Ends.error (by simp) (by simp_all)
    | cons d l =>
      unfold setComment
      have hhead : ∃ l', (if (c :: d :: l).getLast? = some (ch '\n') then (c :: d :: l).dropLast
          else c :: d :: l) = c :: l' := by
        split_ifs
        · exact ⟨(d :: l).dropLast, rfl⟩
        · exact ⟨d :: l, rfl⟩
      obtain ⟨l', hl'⟩ := hhead
      simp only [hl']
      split_ifs with hslash
      · exact Ends.ok trivial
      · exact Ends.error (by simp) (by simp_all)

theorem between_cons {c : UInt8} {rest end_ : Location} (h : end_ <:+ rest) :
    ∃ l, between (c :: rest) end_ = c :: l := by
  have hlt : (c :: rest).length - end_.length = (rest.length - end_.length) + 1 := by
    have := h.length_le
    simp only [List.length_cons]
    omega
  exact ⟨rest.take (rest.length - end_.length), by rw [between, hlt, List.take_succ_cons]⟩

theorem addComment_ends {c : UInt8} {rest end_ : Location} (hc : c ≠ ch '\r') (h : end_ <:+ rest)
    (placement : CommentPlacement) (r : Reader) :
    Ends (c = ch '/') (addComment (c :: rest) end_ placement r) fun r' =>
      r' = { r with commentsBefore_ := r'.commentsBefore_ } ∧
        (c = ch '/' → (∀ b ∈ r.commentsBefore_.head?, b = ch '/') →
          ∀ b ∈ r'.commentsBefore_.head?, b = ch '/') := by
  obtain ⟨l, hl⟩ := between_cons (c := c) h
  have hhead := normalizeEOL_head hc l
  unfold addComment
  rw [hl]
  cases placement with
  | commentBefore =>
    refine Ends.ok ⟨rfl, fun hslash hpending b hb => ?_⟩
    simp only [List.head?_append, hhead] at hb
    cases hold : r.commentsBefore_.head? with
    | none => simp_all
    | some b' => simp_all
  | commentAfterOnSameLine =>
    refine Ends.bind ((setComment_ends _).pre fun hslash => by rw [hhead, hslash]) fun _ _ => ?_
    exact Ends.ok ⟨rfl, fun _ => id⟩

/-- What reading a comment from the byte `c`, which `r` is at, does to the reader. -/
theorem readComment_ends {r : Reader} {c : UInt8} {rest : Location} (hcur : r.current_ = c :: rest)
    (hc : c = ch '\'' ∨ c = ch '/') :
    Ends (Tame r) (readComment r.current_ { r with current_ := rest }) fun p =>
      Passed [] [] r p.2 ∧ p.2.current_ <:+ rest := by
  obtain ⟨current, ms, hread, hsuffix, hrest, hms, hquote⟩ :=
    readCommentText_marks (decide (c = ch '\'')) { r with current_ := rest }
  have hmarks : r.marks = ms ++ marks .code current := by
    rw [← hrest, Reader.marks, hcur]
    rcases hc with rfl | rfl <;> rfl
  have hpassed : Passed [] [] r { r with current_ := current } := by
    refine ⟨moved_of_marks ms ?_ hmarks, fun limit outer hw => ?_⟩
    · rw [hcur]
      exact hsuffix.trans (List.suffix_cons c rest)
    · rw [hmarks] at hw
      exact hw.quoteComments hms
  unfold readComment
  simp only
  rw [hread]
  split_ifs with hfailed
  · exact Ends.pure ⟨hpassed, hsuffix⟩
  -- On a tame document a complete comment starts with `/`.
  have hslash : Tame r → c = ch '/' := by
    intro ht
    rcases hc with rfl | rfl
    · have hmem := hquote (by simpa using hfailed) rfl
      exact absurd (hmarks ▸ List.mem_append_left _ hmem : .quoteComment ∈ r.marks) ht.quoteFree
    · rfl
  have hcr : c ≠ ch '\r' := by rcases hc with rfl | rfl <;> decide
  rw [hcur]
  refine Ends.bind ((addComment_ends hcr hsuffix _ _).pre hslash) fun r3 h3 => ?_
  obtain ⟨hr3, hpending⟩ := h3
  have hcur3 := congrArg Reader.current_ hr3
  have herrors3 := congrArg Reader.errors_ hr3
  simp only at hcur3 herrors3
  have hmarks3 : r3.marks = marks .code current := by rw [Reader.marks, hcur3]
  refine Ends.pure ⟨⟨⟨?_, herrors3, fun ht => ?_⟩, fun limit outer hw => ?_⟩, ?_⟩
  · rw [hcur3]
    exact hpassed.suffix
  · have htext := hpassed.tame ht
    exact ⟨by rw [hcur3]; exact htext.short, by rw [hmarks3]; exact htext.quoteFree,
      hpending (hslash ht) htext.pending⟩
  · rw [hmarks3]
    exact hpassed.within limit outer hw
  · rw [hcur3]
    exact hsuffix

/-! ## Tokens -/

theorem stringEnd_suffix (l : Location) : (stringEnd l).2 <:+ l := by
  induction l using stringEnd.induct with
  | case1 => exact List.suffix_refl _
  | case2 c => exact List.nil_suffix
  | case3 d rest ih =>
    rw [stringEnd, if_pos rfl]
    exact ih.trans ((List.suffix_cons d rest).trans (List.suffix_cons _ _))
  | case4 d rest h => rw [stringEnd, if_neg h, if_pos rfl]; exact List.suffix_cons _ _
  | case5 c d rest h1 h2 ih =>
    rw [stringEnd, if_neg h1, if_neg h2]
    exact ih.trans (List.suffix_cons _ _)

theorem skipFraction_suffix (l : Location) : skipFraction l <:+ l := by
  unfold skipFraction
  split
  · exact List.suffix_refl _
  · split_ifs
    · exact (List.dropWhile_suffix _).trans (List.suffix_cons _ _)
    · exact List.suffix_refl _

theorem skipSign_suffix (l : Location) : skipSign l <:+ l := by
  unfold skipSign
  split
  · exact List.suffix_refl _
  · split_ifs
    · exact List.suffix_cons _ _
    · exact List.suffix_refl _

theorem skipExponent_suffix (l : Location) : skipExponent l <:+ l := by
  unfold skipExponent
  split
  · exact List.suffix_refl _
  · rename_i c rest
    split_ifs
    · exact (List.dropWhile_suffix _).trans ((skipSign_suffix rest).trans (List.suffix_cons _ _))
    · exact List.suffix_refl _

/-- The reader has skipped bytes that have no mark. -/
def Skips (r r' : Reader) : Prop :=
  ∃ current, r' = { r with current_ := current } ∧ current <:+ r.current_ ∧
    marks .code current = r.marks

theorem matchPattern_skips {pattern : Bytes} (hpattern : ∀ c ∈ pattern, c ∉ special) (r : Reader) :
    Skips r (matchPattern pattern r).2 := by
  unfold matchPattern
  split
  · rename_i hprefix
    refine ⟨r.current_.drop pattern.length, rfl, List.drop_suffix _ _, ?_⟩
    obtain ⟨rest, hrest⟩ := List.isPrefixOf_iff_prefix.mp hprefix
    rw [Reader.marks, ← hrest, List.drop_left, marks_append hpattern]
  · exact ⟨r.current_, rfl, List.suffix_refl _, rfl⟩

theorem readNumber_skips (checkInf : Bool) (r : Reader) : Skips r (readNumber checkInf r).2 := by
  unfold readNumber
  split_ifs with hinf
  · refine ⟨r.current_.drop 1, rfl, List.drop_suffix _ _, ?_⟩
    rw [Reader.marks]
    cases hcur : r.current_ with
    | nil => rfl
    | cons c rest =>
      have hc : c = ch 'I' := by simpa [hcur] using hinf.2
      rw [hc]
      exact (marks_plain (by decide) rest).symm
  · refine ⟨_, rfl, ?_, marks_number _⟩
    exact (skipExponent_suffix _).trans ((skipFraction_suffix _).trans (List.dropWhile_suffix _))

/-- What a token opens or closes. A bracket that no rule of the reader asks for there is passed over, and
stands for nothing that the reader has open or will close. -/
def TokenPassed (type_ : TokenType) (r r' : Reader) : Prop :=
  match type_ with
  | .objectBegin => Passed [] [.brace] r r'
  | .objectEnd => Passed [.brace] [] r r'
  | .arrayBegin => Passed [] [.square] r r'
  | .arrayEnd => Passed [.square] [] r r' ∧ Passed [.brace] [.brace] r r'
  | _ => Passed [] [] r r'

theorem TokenPassed.of_passed {r r' : Reader} {type_ : TokenType} (h : Passed [] [] r r') (ok : Bool)
    (htype : type_ ∉ [.objectBegin, .objectEnd, .arrayBegin, .arrayEnd]) :
    TokenPassed (if ok then type_ else .error) r r' := by
  cases ok with
  | false => exact h
  | true => cases type_ <;> first | exact h | simp at htype

theorem readTokenBody_ends {r : Reader} {c : UInt8} {rest : Location} (hcur : r.current_ = c :: rest) :
    Ends (Tame r) (readTokenBody r.current_ c { r with current_ := rest }) fun p =>
      TokenPassed (if p.2.1 then p.1 else .error) r p.2.2 ∧ p.2.2.current_ <:+ rest := by
  have hrest : rest <:+ r.current_ := by
    rw [hcur]
    exact List.suffix_cons c rest
  have hmarks : r.marks = marks .code (c :: rest) := by rw [Reader.marks, hcur]
  unfold readTokenBody
  refine Ends.ite (fun h => Ends.ok ⟨?_, List.suffix_refl _⟩) fun hbrace => ?_
  · exact passed_opening hrest (by rw [hmarks, h]; rfl)
  refine Ends.ite (fun h => Ends.ok ⟨?_, List.suffix_refl _⟩) fun hbrace' => ?_
  · exact passed_closing hrest (by rw [hmarks, h]; rfl)
  refine Ends.ite (fun h => Ends.ok ⟨?_, List.suffix_refl _⟩) fun hbracket => ?_
  · exact passed_opening hrest (by rw [hmarks, h]; rfl)
  refine Ends.ite (fun h => Ends.ok ⟨?_, List.suffix_refl _⟩) fun hbracket' => ?_
  · have hclosing : r.marks = .closing .square :: marks .code rest := by rw [hmarks, h]; rfl
    exact ⟨passed_closing hrest hclosing, passed_closing_other hrest hclosing (by decide)⟩
  refine Ends.ite (fun h => Ends.ok ⟨?_, stringEnd_suffix _⟩) fun hquote => ?_
  · refine TokenPassed.of_passed (passed_of_marks ((stringEnd_suffix rest).trans hrest) ?_) _ (by simp)
    rw [hmarks, h, ← marks_stringEnd]
    rfl
  refine Ends.ite (fun h => Ends.map (readComment_ends hcur h) fun p hp => ?_) fun hcomment => ?_
  · exact ⟨TokenPassed.of_passed hp.1 _ (by simp), hp.2⟩
  -- The bytes that are left have no mark.
  have hplain : c ∉ special := by
    intro hspecial
    rw [not_or] at hcomment
    simp only [special, List.mem_cons, List.not_mem_nil, or_false] at hspecial
    rcases hspecial with h | h | h | h | h | h | h
    · exact hquote h
    · exact hcomment.2 h
    · exact hcomment.1 h
    · exact hbrace h
    · exact hbrace' h
    · exact hbracket h
    · exact hbracket' h
  rw [marks_plain hplain] at hmarks
  have hother : ∀ (type_ : TokenType) (ok : Bool) (r' : Reader),
      type_ ∉ [.objectBegin, .objectEnd, .arrayBegin, .arrayEnd] →
      Skips { r with current_ := rest } r' →
      Ends (Tame r) (.ok (type_, ok, r')) fun p =>
        TokenPassed (if p.2.1 then p.1 else .error) r p.2.2 ∧ p.2.2.current_ <:+ rest := by
    rintro type_ ok r' htype ⟨current, rfl, hsuffix, hcurrent⟩
    refine Ends.ok ⟨TokenPassed.of_passed (passed_of_marks (hsuffix.trans hrest) ?_) ok htype, hsuffix⟩
    rw [hmarks, hcurrent, Reader.marks]
  have hstay : Skips { r with current_ := rest } { r with current_ := rest } :=
    ⟨rest, rfl, List.suffix_refl _, rfl⟩
  refine Ends.ite (fun _ => hother _ _ _ (by simp) (readNumber_skips _ _)) fun _ => ?_
  refine Ends.ite (fun _ => hother _ _ _ (by simp) (readNumber_skips _ _)) fun _ => ?_
  refine Ends.ite (fun _ => hother _ _ _ (by simp) (matchPattern_skips (by decide +kernel) _)) fun _ => ?_
  refine Ends.ite (fun _ => hother _ _ _ (by simp) (matchPattern_skips (by decide +kernel) _)) fun _ => ?_
  refine Ends.ite (fun _ => hother _ _ _ (by simp) (matchPattern_skips (by decide +kernel) _)) fun _ => ?_
  refine Ends.ite (fun _ => hother _ _ _ (by simp) hstay) fun _ => ?_
  refine Ends.ite (fun _ => hother _ _ _ (by simp) hstay) fun _ => ?_
  exact Ends.ite (fun _ => hother _ _ _ (by simp) hstay) fun _ => hother _ _ _ (by simp) hstay

theorem TokenPassed.toMoved {r r' : Reader} {type_ : TokenType} (h : TokenPassed type_ r r') :
    Moved r r' := by
  cases type_ <;> first | exact Passed.toMoved h | exact h.1.toMoved

theorem readTokenBody_zero (start_ : Location) (r : Reader) :
    readTokenBody start_ 0 r = .ok (.endOfStream, true, r) := rfl

/-- A token takes a byte, or it is the end of the stream. -/
structure TokenPost (r : Reader) (token : Token) (r' : Reader) : Prop where
  passed : TokenPassed token.type_ r r'
  start : token.start_ <:+ r.current_
  advance : token.type_ ≠ .endOfStream → r'.current_.length < r.current_.length

theorem TokenPost.toMoved {r r' : Reader} {token : Token} (h : TokenPost r token r') : Moved r r' :=
  h.passed.toMoved

theorem TokenPassed.of_passed_before {r r1 r2 : Reader} {type_ : TokenType} (h : Passed [] [] r r1)
    (h' : TokenPassed type_ r1 r2) : TokenPassed type_ r r2 := by
  cases type_ with
  | objectEnd => exact (h.inside [.brace]).trans h'
  | arrayEnd => exact ⟨(h.inside [.square]).trans h'.1, (h.inside [.brace]).trans h'.2⟩
  | _ => exact h.trans h'

theorem readToken_ends (r : Reader) : Ends (Tame r) (readToken r) fun p => TokenPost r p.1 p.2 := by
  unfold readToken
  have hspaces := skipSpaces_passed r
  simp only
  cases hcur : (skipSpaces r).current_ with
  | nil =>
    -- Nothing is left: the byte read is the zero that stands for the end.
    have hnext : getNextChar (skipSpaces r) = (0, skipSpaces r) := by simp [getNextChar, hcur]
    rw [hnext]
    simp only [readTokenBody_zero]
    exact Ends.ok ⟨hspaces, List.nil_suffix, fun h => absurd rfl h⟩
  | cons c rest =>
    have hnext : getNextChar (skipSpaces r) = (c, { skipSpaces r with current_ := rest }) := by
      simp [getNextChar, hcur]
    rw [hnext, ← hcur]
    refine Ends.bind ((readTokenBody_ends hcur).pre hspaces.tame) fun ⟨type_, ok, r2⟩ hp => ?_
    have hlt : rest.length < (skipSpaces r).current_.length := by simp [hcur]
    refine Ends.pure ⟨TokenPassed.of_passed_before hspaces hp.1, hspaces.suffix, fun _ => ?_⟩
    exact lt_of_le_of_lt hp.2.length_le (lt_of_lt_of_le hlt hspaces.length_le)

theorem TokenPost.of_passed {r r1 r2 : Reader} {token : Token} (h : Passed [] [] r r1)
    (h' : TokenPost r1 token r2) : TokenPost r token r2 :=
  ⟨TokenPassed.of_passed_before h h'.passed, h'.start.trans h.suffix,
    fun hne => lt_of_lt_of_le (h'.advance hne) h.length_le⟩

/-- A token of this type. -/
theorem TokenPost.of_type {r r' : Reader} {token : Token} {type_ : TokenType} (h : TokenPost r token r')
    (htype : token.type_ = type_) : TokenPassed type_ r r' := htype ▸ h.passed

theorem skipCommentTokensLoop_ends (fuel : Nat) (r : Reader) (h : r.current_.length < fuel) :
    Ends (Tame r) (skipCommentTokensLoop fuel r) fun p => TokenPost r p.1 p.2 := by
  induction fuel generalizing r with
  | zero => omega
  | succ fuel ih =>
    rw [skipCommentTokensLoop]
    refine Ends.bind (readToken_ends r) fun ⟨token, r1⟩ hp => ?_
    refine Ends.ite (fun hcomment => ?_) fun _ => Ends.pure hp
    have hlt := hp.advance (by simp [hcomment])
    simp only at hlt
    have hpassed : Passed [] [] r r1 := hp.of_type hcomment
    exact ((ih r1 (by omega)).pre hpassed.tame).mono fun q hq => hq.of_passed hpassed

theorem skipCommentTokens_ends (r : Reader) :
    Ends (Tame r) (skipCommentTokens r) fun p => TokenPost r p.1 p.2 :=
  skipCommentTokensLoop_ends _ r (by omega)

/-! ## Errors -/

/-- A failed read has recorded one more error, and recovery keeps it. -/
structure Failed (r r' : Reader) : Prop where
  suffix : r'.current_ <:+ r.current_
  errors : r.errors_.length < r'.errors_.length
  tame : Tame r → Tame r'

theorem Moved.failed {r r1 r2 : Reader} (h : Moved r r1) (h' : Failed r1 r2) : Failed r r2 :=
  ⟨h'.suffix.trans h.suffix, by rw [← h.errors]; exact h'.errors, fun ht => h'.tame (h.tame ht)⟩

theorem recoverLoop_ends (skipUntilToken : TokenType) (fuel : Nat) (r : Reader)
    (h : r.current_.length < fuel) : Ends (Tame r) (recoverLoop skipUntilToken fuel r) (Moved r) := by
  induction fuel generalizing r with
  | zero => omega
  | succ fuel ih =>
    rw [recoverLoop]
    refine Ends.bind (readToken_ends r) fun ⟨skip, r1⟩ hp => ?_
    refine Ends.ite (fun _ => Ends.pure hp.toMoved) fun hgo => ?_
    have hlt := hp.advance fun heq => hgo (Or.inr heq)
    simp only at hlt
    exact ((ih r1 (by omega)).pre hp.toMoved.tame).mono fun r2 h2 => hp.toMoved.trans h2

theorem recoverFromError_ends {r r1 : Reader} (skipUntilToken : TokenType) (h : Failed r r1) :
    Ends (Tame r) (recoverFromError skipUntilToken r1) (Failed r) := by
  unfold recoverFromError
  refine Ends.bind ((recoverLoop_ends skipUntilToken _ r1 (by omega)).pre h.tame) fun r2 h2 => ?_
  have herrors : r2.errors_.take r1.errors_.length = r1.errors_ := by simp [h2.errors]
  refine Ends.pure ⟨h2.suffix.trans h.suffix, ?_, fun ht => ?_⟩
  · simp only [herrors]
    exact h.errors
  · have ht2 := h2.tame (h.tame ht)
    exact ⟨ht2.short, ht2.quoteFree, ht2.pending⟩

theorem addError_failed {r r1 : Reader} (message : Bytes) (token : Token) (h : Moved r r1) :
    Failed r (addError message token r1) :=
  ⟨h.suffix, by simp [addError, h.errors], fun ht =>
    have ht1 := h.tame ht
    ⟨ht1.short, ht1.quoteFree, ht1.pending⟩⟩

theorem addErrorAndRecover_ends {r r1 : Reader} (message : Bytes) (token : Token)
    (skipUntilToken : TokenType) (h : Moved r r1) :
    Ends (Tame r) (addErrorAndRecover message token skipUntilToken r1) (Failed r) :=
  recoverFromError_ends _ (addError_failed message token h)

/-! ## Scalars -/

/-- What reading does to the reader, which has `before` open on the way in and `after` on the way out: it
moves on, and records an error exactly when it fails. -/
def ReadPost (before after : List Bracket) (r : Reader) (ok : Bool) (r' : Reader) : Prop :=
  if ok then Passed before after r r' else Failed r r'

theorem ReadPost.of_passed {before between after : List Bracket} {r r1 r2 : Reader} {ok : Bool}
    (h : Passed before between r r1) (h' : ReadPost between after r1 ok r2) :
    ReadPost before after r ok r2 := by
  cases ok with
  | true => exact h.trans h'
  | false => exact h.toMoved.failed h'

variable {before after : List Bracket}

theorem ReadPost.suffix {r r' : Reader} {ok : Bool} (h : ReadPost before after r ok r') :
    r'.current_ <:+ r.current_ := by
  cases ok with
  | true => exact Moved.suffix (Passed.toMoved h)
  | false => exact Failed.suffix h

theorem ReadPost.ok_iff {r r' : Reader} {ok : Bool} (h : ReadPost before after r ok r') (hr : r.errors_ = []) :
    ok = true ↔ r'.errors_ = [] := by
  cases ok with
  | true => exact iff_of_true rfl ((Moved.errors (Passed.toMoved h)).trans hr)
  | false =>
    refine iff_of_false (by simp) fun hnil => ?_
    have hlt := Failed.errors h
    simp [hnil] at hlt

theorem decodeNumber_post (libc : LibC Double) (token : Token) (r : Reader) :
    ReadPost [] [] r (decodeNumber libc token r).1.isSome (decodeNumber libc token r).2 := by
  have hdouble :
      ReadPost [] [] r (decodeDouble libc token r).1.isSome (decodeDouble libc token r).2 := by
    unfold decodeDouble
    simp only
    split
    · exact Passed.refl [] r
    · exact addError_failed _ _ (Moved.refl r)
  unfold decodeNumber
  simp only
  split
  · exact hdouble
  · split_ifs <;> exact Passed.refl [] r

theorem decodeNumberValue_post (libc : LibC Double) (token : Token) (old : Value Double) (r : Reader) :
    ReadPost [] [] r (decodeNumberValue libc token old r).1
      (decodeNumberValue libc token old r).2.2 := by
  have h := decodeNumber_post libc token r
  unfold decodeNumberValue
  split <;> rename_i hd <;> simpa [hd] using h

theorem codePointToUTF8_length (cp : Nat) : (codePointToUTF8 cp).length ≤ 4 := by
  unfold codePointToUTF8
  split_ifs <;> simp

theorem hexDigits_length {n : Nat} {current rest : Bytes} {unicode cp : Nat}
    (h : hexDigits n current unicode = .ok (cp, rest)) : rest.length + n = current.length := by
  induction n generalizing current unicode with
  | zero => cases h; simp
  | succ n ih =>
    cases current with
    | nil => cases h
    | cons c current =>
      rw [hexDigits] at h
      split at h
      · have := ih h
        simp only [List.length_cons]
        omega
      · cases h

theorem decodeUnicodeEscapeSequence_length {current rest : Bytes} {cp : Nat}
    (h : decodeUnicodeEscapeSequence current = .ok (cp, rest)) : rest.length + 4 = current.length := by
  unfold decodeUnicodeEscapeSequence at h
  split_ifs at h
  exact hexDigits_length h

theorem decodeUnicodeCodePoint_length {current rest : Bytes} {cp : Nat}
    (h : decodeUnicodeCodePoint current = .ok (cp, rest)) : rest.length + 4 ≤ current.length := by
  unfold decodeUnicodeCodePoint at h
  cases hfirst : decodeUnicodeEscapeSequence current with
  | error e => rw [hfirst] at h; cases h
  | ok p =>
    obtain ⟨unicode, current1⟩ := p
    have hlen := decodeUnicodeEscapeSequence_length hfirst
    rw [hfirst] at h
    change (if 0xD800 ≤ unicode ∧ unicode ≤ 0xDBFF then _ else _) = _ at h
    split_ifs at h with hsurrogate hshort hprefix
    · cases h
    · cases h
    · cases hsecond : decodeUnicodeEscapeSequence (current1.drop 2) with
      | error e => rw [hsecond] at h; cases h
      | ok q =>
        have hlen2 := decodeUnicodeEscapeSequence_length hsecond
        rw [hsecond] at h
        cases h
        simp only [List.length_drop] at hlen2
        omega
    · cases h
      omega

theorem decodeStringLoop_length {fuel : Nat} {current decoded out : Bytes}
    (h : decodeStringLoop fuel current decoded = .ok out) :
    out.length ≤ decoded.length + current.length := by
  induction fuel generalizing current decoded with
  | zero => cases h; omega
  | succ fuel ih =>
    cases current with
    | nil => cases h; simp
    | cons c current =>
      unfold decodeStringLoop at h
      split_ifs at h with hquote hescape
      · cases h; simp
      · cases current with
        | nil => cases h
        | cons escape current =>
          simp only at h
          split_ifs at h with hu
          · cases hcp : decodeUnicodeCodePoint current with
            | error e => rw [hcp] at h; cases h
            | ok p =>
              rw [hcp] at h
              have hout := ih h
              have hlen := decodeUnicodeCodePoint_length hcp
              have hutf8 := codePointToUTF8_length p.1
              simp only [List.length_append, List.length_cons] at hout ⊢
              omega
          · split at h
            · have hout := ih h
              simp only [List.length_append, List.length_cons, List.length_nil] at hout ⊢
              omega
            · cases h
      · have hout := ih h
        simp only [List.length_append, List.length_cons, List.length_nil] at hout ⊢
        omega

theorem decodeString_post (token : Token) (r : Reader) :
    ReadPost [] [] r (decodeString token r).1.isSome (decodeString token r).2 := by
  unfold decodeString
  simp only
  split
  · exact Passed.refl [] r
  · exact addError_failed _ _ (Moved.refl r)

theorem decodeString_length {token : Token} {r r' : Reader} {decoded : Bytes}
    (h : decodeString token r = (some decoded, r')) : decoded.length ≤ token.start_.length := by
  unfold decodeString at h
  simp only at h
  split at h
  · rename_i hloop
    cases h
    have hlen := decodeStringLoop_length hloop
    simp only [between, List.length_nil, List.length_dropLast, List.length_drop,
      List.length_take] at hlen
    omega
  · cases h

theorem ofString_ends (s : Bytes) : Ends (s.length ≤ maxStringLength)
    (Value.ofString s : Except Fault (Value Double)) fun _ => True := by
  by_cases h : s.length ≤ maxStringLength
  · rw [Value.ofString_ok s h]
    exact Ends.ok trivial
  · unfold Value.ofString duplicateAndPrefixStringValue
    simp only
    split
    · exact Ends.ok trivial
    · exact Ends.error (by simp) h

theorem decodeStringValue_ends (token : Token) (old : Value Double) (r : Reader) :
    Ends (token.start_.length ≤ maxStringLength) (decodeStringValue token old r)
      fun p => ReadPost [] [] r p.1 p.2.2 := by
  have h := decodeString_post token r
  unfold decodeStringValue
  split <;> rename_i hd <;> simp only [hd] at h
  · refine Ends.bind ((ofString_ends _).pre fun hshort => ?_) fun _ _ => Ends.pure h
    exact le_trans (decodeString_length hd) hshort
  · exact Ends.pure h

/-! ## Containers -/

/-- Under this the reader, with `open_` open, returns when `levels` more nodes fit under the stack
limit. -/
def Quiet (open_ : List Bracket) (levels : Nat) (r : Reader) : Prop :=
  Tame r ∧ ∃ limit outer, Within limit (open_ ++ outer) r.marks ∧
    limit < levels + (open_ ++ outer).length

theorem Passed.quiet {levels : Nat} {r r' : Reader} {open_ : List Bracket}
    (h : Passed open_ open_ r r') (hq : Quiet open_ levels r) : Quiet open_ levels r' := by
  obtain ⟨ht, limit, outer, hw, hlevels⟩ := hq
  exact ⟨h.tame ht, limit, outer, h.within limit outer hw, hlevels⟩

theorem Quiet.anywhere {levels : Nat} {r : Reader} {open_ : List Bracket}
    (h : Quiet open_ levels r) : Quiet [] levels r := by
  obtain ⟨ht, limit, outer, hw, hlevels⟩ := h
  exact ⟨ht, limit, open_ ++ outer, hw, hlevels⟩

/-- Behind an opening bracket one level less is enough. -/
theorem Passed.quiet_opening {levels : Nat} {r r' : Reader} {bracket : Bracket}
    (h : Passed [] [bracket] r r') (hq : Quiet [] (levels + 1) r) : Quiet [bracket] levels r' := by
  obtain ⟨ht, limit, outer, hw, hlevels⟩ := hq
  refine ⟨h.tame ht, limit, outer, h.within limit outer hw, ?_⟩
  simp only [List.nil_append, List.singleton_append, List.length_cons] at hlevels ⊢
  omega

theorem not_quiet_zero {r : Reader} {open_ : List Bracket} : ¬ Quiet open_ 0 r := by
  rintro ⟨-, limit, outer, hw, hlevels⟩
  have hle := hw.length_le
  omega

/-- Inside an object any token but its end may stand where a separator is due, behind a comment. -/
theorem TokenPassed.inside_object {r r' : Reader} {type_ : TokenType} (h : TokenPassed type_ r r')
    (hne : type_ ≠ .objectEnd) : Passed [.brace] [.brace] r r' := by
  have hopening : ∀ bracket, Passed [] [bracket] r r' → Passed [.brace] [.brace] r r' :=
    fun bracket hb => ⟨hb.toMoved, fun limit outer hw => (hb.within limit (.brace :: outer) hw).tail⟩
  cases type_ with
  | objectBegin => exact hopening .brace h
  | arrayBegin => exact hopening .square h
  | objectEnd => exact absurd rfl hne
  | arrayEnd => exact h.2
  | _ => exact Passed.inside h [.brace]

theorem readToken_arrayEnd {r : Reader} (h : r.current_.head? = some (ch ']')) :
    ∃ p, readToken r = .ok p ∧ p.1.type_ = .arrayEnd := by
  obtain ⟨rest, hcur⟩ : ∃ rest, r.current_ = ch ']' :: rest := by
    cases hcur : r.current_ with
    | nil => simp [hcur] at h
    | cons c rest =>
      rw [hcur] at h
      exact ⟨rest, by rw [Option.some.inj h]⟩
  have hspaces : skipSpaces r = r := by
    unfold skipSpaces
    rw [hcur, List.dropWhile_cons_of_neg (by decide), ← hcur]
  refine ⟨(⟨.arrayEnd, r.current_, rest⟩, { r with current_ := rest }), ?_, rfl⟩
  have hnext : getNextChar r = (ch ']', { r with current_ := rest }) := by simp [getNextChar, hcur]
  unfold readToken
  simp only [hspaces, hnext]
  rfl

section Containers

variable {levels : Nat}
  {readValue : Value Double → Reader → Except Fault (Bool × Value Double × Reader)}
  (hread : ∀ old r, Ends (Quiet [] levels r) (readValue old r) fun p => ReadPost [] [] r p.1 p.2.2)

include hread

theorem readArrayLoop_ends (fuel : Nat) (elements : List (Value Double)) (r : Reader)
    (h : r.current_.length < fuel) :
    Ends (Quiet [.square] levels r ∧ elements.length + r.current_.length < 2 ^ 30)
      (readArrayLoop readValue fuel elements r) fun p => ReadPost [.square] [] r p.1 p.2.2 := by
  induction fuel generalizing elements r with
  | zero => omega
  | succ fuel ih =>
    rw [readArrayLoop]
    refine Ends.ite (fun hlong => Ends.throw_bind (by simp) (by omega)) fun _ => ?_
    refine Ends.bind ((hread .nullValue r).pre fun hc => hc.1.anywhere) fun ⟨ok, value, r1⟩ hp => ?_
    cases ok with
    | false =>
      simp only [Bool.not_false, if_true]
      exact Ends.bind ((recoverFromError_ends _ hp).pre fun hc => hc.1.1) fun r2 h2 => Ends.pure h2
    | true =>
      simp only [Bool.not_true, Bool.false_eq_true, if_false]
      have hvalue : Passed [] [] r r1 := hp
      refine Ends.bind ((skipCommentTokens_ends r1).pre fun hc => hvalue.tame hc.1.1)
        fun ⟨currentToken, r2⟩ hq => ?_
      have hmoved := hvalue.toMoved.trans hq.toMoved
      simp only
      refine Ends.ite (fun _ => ?_) fun hmissing => ?_
      · exact Ends.bind ((addErrorAndRecover_ends _ _ _ hmoved).pre fun hc => hc.1.1)
          fun r3 h3 => Ends.pure h3
      refine Ends.ite (fun hend => Ends.pure ?_) fun hend => ?_
      · exact (hvalue.inside [.square]).trans (hq.of_type hend).1
      -- A separator: it took a byte, so the rounds left are enough.
      have hseparator : currentToken.type_ = .arraySeparator := by
        by_contra hno
        exact hmissing ⟨hno, hend⟩
      have hpassed : Passed [.square] [.square] r r2 :=
        (hvalue.trans (hq.of_type hseparator)).inside [.square]
      have hlt := hq.advance (by simp [hseparator])
      have hle := hvalue.length_le
      simp only at hlt
      refine ((ih _ r2 (by omega)).pre fun hc => ⟨hpassed.quiet hc.1, ?_⟩).mono fun p h3 =>
        ReadPost.of_passed hpassed h3
      simp only [List.length_append, List.length_singleton]
      omega

theorem readArray_ends (r : Reader) :
    Ends (Quiet [.square] levels r) (readArray readValue r)
      fun p => ReadPost [.square] [] r p.1 p.2.2 := by
  unfold readArray
  have hspaces := (skipSpaces_passed r).inside [.square]
  refine Ends.ite (fun hempty => ?_) fun _ => ?_
  · obtain ⟨p, hread, htype⟩ := readToken_arrayEnd hempty
    have hp := (readToken_ends (skipSpaces r)).of_ok hread
    rw [hread]
    exact Ends.pure (hspaces.trans (hp.of_type htype).1)
  · refine Ends.bind ((readArrayLoop_ends hread _ [] _ (by omega)).pre fun hc => ?_) fun p hp => ?_
    · have hshort := (hspaces.tame hc.1).short
      exact ⟨hspaces.quiet hc, by simp only [List.length_nil]; omega⟩
    · exact Ends.pure (ReadPost.of_passed hspaces hp)

theorem readObjectLoop_ends (fuel : Nat) (name : Bytes) (members : List (Bytes × Value Double))
    (r : Reader) (h : r.current_.length < fuel) :
    Ends (Quiet [.brace] levels r) (readObjectLoop readValue fuel name members r)
      fun p => ReadPost [.brace] [] r p.1 p.2.2 := by
  induction fuel generalizing name members r with
  | zero => omega
  | succ fuel ih =>
    rw [readObjectLoop]
    refine Ends.bind ((skipCommentTokens_ends r).pre And.left) fun ⟨tokenName, r1⟩ hp => ?_
    have hmoved1 := hp.toMoved
    simp only
    refine Ends.ite (fun hend => Ends.pure (hp.of_type hend.1)) fun _ => ?_
    refine Ends.ite (fun _ => ?_) fun hname => ?_
    · exact Ends.bind ((addErrorAndRecover_ends _ _ _ hmoved1).pre And.left)
        fun r2 h2 => Ends.pure h2
    have hstring : tokenName.type_ = .string := by simpa using hname
    have hlt := hp.advance (by simp [hstring])
    have hpassed1 : Passed [] [] r r1 := hp.of_type hstring
    have hdecode := decodeString_post tokenName r1
    split <;> rename_i hd <;> simp only [hd] at hdecode
    · have hfailed : ReadPost [] [] r false _ := ReadPost.of_passed hpassed1 hdecode
      exact Ends.bind ((recoverFromError_ends _ hfailed).pre And.left) fun r2 h2 => Ends.pure h2
    rename_i name r2
    have hpassed2 : Passed [] [] r r2 := hpassed1.trans hdecode
    refine Ends.bind ((readToken_ends r2).pre fun hc => hpassed2.tame hc.1)
      fun ⟨colon, r3⟩ hq => ?_
    have hmoved3 := hpassed2.toMoved.trans hq.toMoved
    simp only
    refine Ends.ite (fun _ => ?_) fun hcolon => ?_
    · exact Ends.bind ((addErrorAndRecover_ends _ _ _ hmoved3).pre And.left)
        fun r4 h4 => Ends.pure h4
    have hpassed3 : Passed [] [] r r3 := hpassed2.trans (hq.of_type (not_ne_iff.mp hcolon))
    refine Ends.ite (fun hlong => Ends.throw_bind (by simp) fun hc => ?_) fun _ => ?_
    · have hdecoded := decodeString_length hd
      have hstart := hp.start.length_le
      have hshort := hc.1.short
      simp only at hstart
      omega
    refine Ends.bind ((hread _ r3).pre fun hc => hpassed3.quiet hc.anywhere)
      fun ⟨ok, value, r4⟩ hvalue => ?_
    have hpost := ReadPost.of_passed hpassed3 hvalue
    cases ok with
    | false =>
      simp only [Bool.not_false, if_true]
      exact Ends.bind ((recoverFromError_ends _ hpost).pre And.left) fun r5 h5 => Ends.pure h5
    | true =>
      simp only [Bool.not_true, Bool.false_eq_true, if_false]
      have hpassed4 : Passed [] [] r r4 := hpost
      refine Ends.bind ((readToken_ends r4).pre fun hc => hpassed4.tame hc.1)
        fun ⟨comma, r5⟩ hcomma => ?_
      have hmoved5 := hpassed4.toMoved.trans hcomma.toMoved
      -- The name took a byte, so the rounds left are enough for the next member.
      have hle : r4.current_.length ≤ r1.current_.length :=
        (ReadPost.suffix hvalue).length_le.trans
          (hq.toMoved.suffix.trans (Moved.suffix (Passed.toMoved hdecode))).length_le
      have hnext : ∀ (comma : Token) (r6 : Reader), TokenPost r4 comma r6 →
          Ends (Quiet [.brace] levels r)
            (if comma.type_ = .objectEnd then pure (true, setMember name value members, r6)
              else readObjectLoop readValue fuel name (setMember name value members) r6)
            fun p => ReadPost [.brace] [] r p.1 p.2.2 := by
        intro comma r6 h6
        refine Ends.ite (fun hend => Ends.pure ?_) fun hend => ?_
        · exact (hpassed4.inside [.brace]).trans (h6.of_type hend)
        · have hpassed6 := (hpassed4.inside [.brace]).trans (h6.passed.inside_object hend)
          have hle6 := h6.toMoved.length_le
          simp only at hlt
          exact ((ih _ _ r6 (by omega)).pre hpassed6.quiet).mono fun p h7 =>
            ReadPost.of_passed hpassed6 h7
      simp only
      refine Ends.ite (fun _ => ?_) fun _ => Ends.ite (fun hcomment => ?_) fun _ => ?_
      · exact Ends.bind ((addErrorAndRecover_ends _ _ _ hmoved5).pre And.left)
          fun r6 h6 => Ends.pure h6
      · have hpassed : Passed [] [] r4 r5 := hcomma.of_type hcomment
        exact Ends.bind ((skipCommentTokens_ends r5).pre fun hc => hmoved5.tame hc.1)
          fun p h6 => hnext p.1 p.2 (h6.of_passed hpassed)
      · exact hnext comma r5 hcomma

theorem readObject_ends (r : Reader) :
    Ends (Quiet [.brace] levels r) (readObject readValue r)
      fun p => ReadPost [.brace] [] r p.1 p.2.2 := by
  unfold readObject
  exact Ends.bind (readObjectLoop_ends hread _ [] [] r (by omega)) fun p hp => Ends.pure hp

end Containers

/-! ## Values -/

theorem takeCommentsBefore_ends (r : Reader) :
    Ends (Tame r) (takeCommentsBefore r) (Passed [] [] r) := by
  unfold takeCommentsBefore
  refine Ends.ite (fun _ => Ends.ok (Passed.refl [] r)) fun hsome => ?_
  refine Ends.bind ((setComment_ends _).pre fun ht => ?_) fun _ _ =>
    Ends.pure ⟨⟨List.suffix_refl _, rfl, ?_⟩, fun _ _ => id⟩
  · cases hcomments : r.commentsBefore_ with
    | nil => exact absurd hcomments hsome
    | cons c l =>
      have hslash := ht.pending c (by simp [hcomments])
      simp [hslash]
  · exact fun ht => ⟨ht.short, ht.quoteFree, by simp⟩

/-- Where the value ends is noted for later comments only. -/
theorem ReadPost.lastValueEnd {r r' : Reader} {ok : Bool} (h : ReadPost before after r ok r') :
    ReadPost before after r ok { r' with lastValueEnd_ := some r'.current_ } := by
  have htame : Tame r' → Tame { r' with lastValueEnd_ := some r'.current_ } :=
    fun ht => ⟨ht.short, ht.quoteFree, ht.pending⟩
  cases ok with
  | true =>
    have h' : Passed before after r r' := h
    exact ⟨⟨h'.suffix, h'.errors, fun ht => htame (h'.tame ht)⟩, h'.within⟩
  | false =>
    have h' : Failed r r' := h
    exact ⟨h'.suffix, h'.errors, fun ht => htame (h'.tame ht)⟩

theorem readValue_ends (libc : LibC Double) (levels : Nat) (old : Value Double) (r : Reader) :
    Ends (Quiet [] levels r) (readValue libc levels old r) fun p => ReadPost [] [] r p.1 p.2.2 := by
  induction levels generalizing old r with
  | zero => exact Ends.error (by simp) not_quiet_zero
  | succ levels ih =>
    rw [readValue]
    refine Ends.bind ((skipCommentTokens_ends r).pre And.left) fun ⟨token, r1⟩ hp => ?_
    have hmoved1 := hp.toMoved
    refine Ends.bind ((takeCommentsBefore_ends r1).pre fun hc => hmoved1.tame hc.1) fun r2 h2 => ?_
    have hfinish : ∀ {x : Except Fault (Bool × Value Double × Reader)},
        Ends (Quiet [] (levels + 1) r) x (fun p => ReadPost [] [] r p.1 p.2.2) →
        Ends (Quiet [] (levels + 1) r) (x >>= fun p =>
          pure (p.1, p.2.1, { p.2.2 with lastValueEnd_ := some p.2.2.current_ }))
          fun p => ReadPost [] [] r p.1 p.2.2 :=
      fun hx => Ends.bind hx fun p hp => Ends.pure (ReadPost.lastValueEnd hp)
    have hshort : Quiet [] (levels + 1) r → token.start_.length ≤ maxStringLength := by
      intro hc
      have hstart := hp.start.length_le
      have hlen := hc.1.short
      simp only [maxStringLength] at hstart ⊢
      omega
    simp only
    split
    · rename_i htype
      have hpassed : Passed [] [.brace] r r2 := (hp.of_type htype).trans (h2.inside [.brace])
      exact hfinish (((readObject_ends ih r2).pre hpassed.quiet_opening).mono fun _ h =>
        ReadPost.of_passed hpassed h)
    · rename_i htype
      have hpassed : Passed [] [.square] r r2 := (hp.of_type htype).trans (h2.inside [.square])
      exact hfinish (((readArray_ends ih r2).pre hpassed.quiet_opening).mono fun _ h =>
        ReadPost.of_passed hpassed h)
    · rename_i htype
      have hpassed : Passed [] [] r r2 := (hp.of_type htype).trans h2
      exact hfinish (Ends.pure (ReadPost.of_passed hpassed (decodeNumberValue_post libc token old r2)))
    · rename_i htype
      have hpassed : Passed [] [] r r2 := (hp.of_type htype).trans h2
      exact hfinish (((decodeStringValue_ends token old r2).pre hshort).mono fun _ h =>
        ReadPost.of_passed hpassed h)
    · rename_i htype
      exact hfinish (Ends.pure ((hp.of_type htype).trans h2))
    · rename_i htype
      exact hfinish (Ends.pure ((hp.of_type htype).trans h2))
    · rename_i htype
      exact hfinish (Ends.pure ((hp.of_type htype).trans h2))
    · exact Ends.pure (addError_failed _ _ (hmoved1.trans h2.toMoved))

/-- Where a parse starts. -/
def Reader.start (doc : Bytes) : Reader :=
  { current_ := doc, lastValueEnd_ := none, commentsBefore_ := [], errors_ := [] }

/-- A document on which none of the reader's guards throws: outside of strings and comments no `'` starts
a comment and fewer brackets are open at a time than the stack limit. -/
structure Gentle (doc : Bytes) : Prop where
  short : doc.length < 2 ^ 30
  quoteFree : .quoteComment ∉ marks .code doc
  nests : Json.nests (stackLimit - 1) [] (marks .code doc) = true

theorem Gentle.quiet {doc : Bytes} (h : Gentle doc) : Quiet [] stackLimit (Reader.start doc) :=
  ⟨⟨h.short, h.quoteFree, by simp [Reader.start]⟩, stackLimit - 1, [],
    ⟨stackLimit - 1, [], List.Sublist.refl _, rfl, h.nests⟩, by decide⟩

theorem parse_ends (libc : LibC Double) (doc : Bytes) :
    Ends (Gentle doc) (parse libc doc) fun p => (p.1 = true ↔ p.2.2.errors_ = []) := by
  unfold parse
  refine Ends.bind ((readValue_ends libc stackLimit .nullValue (Reader.start doc)).pre Gentle.quiet)
    fun ⟨successful, root, r1⟩ hp => ?_
  have htame : Gentle doc → Tame r1 := by
    intro hdoc
    cases successful with
    | true => exact Moved.tame (Passed.toMoved hp) hdoc.quiet.1
    | false => exact Failed.tame hp hdoc.quiet.1
  refine Ends.bind ((skipCommentTokens_ends r1).pre htame) fun ⟨token, r2⟩ hq => ?_
  have herrors : successful = true ↔ r2.errors_ = [] := by
    rw [hq.toMoved.errors]
    exact ReadPost.ok_iff hp rfl
  refine Ends.ite (fun hsome => ?_) fun _ => Ends.pure herrors
  refine Ends.bind ((setComment_ends _).pre fun hdoc => ?_) fun _ _ => Ends.pure herrors
  cases hcomments : r2.commentsBefore_ with
  | nil => exact absurd hcomments hsome
  | cons c l =>
    have hslash := (hq.toMoved.tame (htame hdoc)).pending c (by simp [hcomments])
    simp [hslash]

/-- The loops have fuel enough, whatever the document. -/
theorem parse_ne_fuel (libc : LibC Double) (doc : Bytes) : parse libc doc ≠ .error .fuel :=
  (parse_ends libc doc).ne_fuel

end FaceDetection.Json

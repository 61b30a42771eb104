import FaceDetection.Json.Reader

/-!
# The marks of a document

A walk over the bytes of a document that tells strings and comments from the rest. Outside of them it
marks the brackets, and each `'` that the reader would take for the start of a comment. It knows no
grammar, so it goes on where the reader would reject the document.
-/

namespace FaceDetection.Json

inductive Bracket where
  | brace
  | square
  deriving DecidableEq, Repr

inductive Mark where
  | opening (bracket : Bracket)
  | closing (bracket : Bracket)
  | quoteComment
  deriving DecidableEq, Repr

/-- Where the walk is: `slash` is behind a `/`, or behind a `'` if `quote`, and `star` is behind a `*` in
a comment. -/
inductive Place where
  | code
  | string
  | escape
  | slash (quote : Bool)
  | line
  | block
  | star

def quoteMark (quote : Bool) : List Mark := if quote then [.quoteComment] else []

def marks : Place → Bytes → List Mark
  | _, [] => []
  | .code, c :: l =>
    if c = ch '"' then marks .string l
    else if c = ch '/' then marks (.slash false) l
    else if c = ch '\'' then marks (.slash true) l
    else if c = ch '{' then .opening .brace :: marks .code l
    else if c = ch '}' then .closing .brace :: marks .code l
    else if c = ch '[' then .opening .square :: marks .code l
    else if c = ch ']' then .closing .square :: marks .code l
    else marks .code l
  | .string, c :: l =>
    if c = ch '\\' then marks .escape l
    else if c = ch '"' then marks .code l
    else marks .string l
  | .escape, _ :: l => marks .string l
  | .slash quote, c :: l =>
    if c = ch '*' then quoteMark quote ++ marks .block l
    else if c = ch '/' then quoteMark quote ++ marks .line l
    else marks .code l
  | .line, c :: l => if c = ch '\n' ∨ c = ch '\r' then marks .code l else marks .line l
  | .block, c :: l => if c = ch '*' then marks .star l else marks .block l
  | .star, c :: l =>
    if c = ch '/' then marks .code l
    else if c = ch '*' then marks .star l
    else marks .block l

example : marks .code (ascii "[\"a]\", /*[*/ 1, '/") = [.opening .square, .quoteComment] := by
  decide +kernel

@[simp] theorem marks_nil (place : Place) : marks place [] = [] := by
  cases place <;> rfl

section Steps

variable (c : UInt8) (l : Bytes)

theorem marks_string : marks .string (c :: l) =
    if c = ch '\\' then marks .escape l else if c = ch '"' then marks .code l else marks .string l :=
  rfl

theorem marks_slash (quote : Bool) : marks (.slash quote) (c :: l) =
    if c = ch '*' then quoteMark quote ++ marks .block l
    else if c = ch '/' then quoteMark quote ++ marks .line l
    else marks .code l :=
  rfl

theorem marks_line : marks .line (c :: l) =
    if c = ch '\n' ∨ c = ch '\r' then marks .code l else marks .line l :=
  rfl

theorem marks_block : marks .block (c :: l) = if c = ch '*' then marks .star l else marks .block l :=
  rfl

theorem marks_star : marks .star (c :: l) =
    if c = ch '/' then marks .code l else if c = ch '*' then marks .star l else marks .block l :=
  rfl

end Steps

/-! ## Bytes without a mark -/

/-- The bytes that the walk looks at between tokens. -/
def special : Bytes := [ch '"', ch '/', ch '\'', ch '{', ch '}', ch '[', ch ']']

theorem marks_plain {c : UInt8} (h : c ∉ special) (l : Bytes) :
    marks .code (c :: l) = marks .code l := by
  have hne : ∀ d ∈ special, c ≠ d := by
    rintro d hd rfl
    exact h hd
  have hquote := hne (ch '"') (by decide)
  have hslash := hne (ch '/') (by decide)
  have happos := hne (ch '\'') (by decide)
  have hbrace := hne (ch '{') (by decide)
  have hbracket := hne (ch '[') (by decide)
  have hbrace' := hne (ch '}') (by decide)
  have hbracket' := hne (ch ']') (by decide)
  rw [marks, if_neg hquote, if_neg hslash, if_neg happos, if_neg hbrace, if_neg hbrace',
    if_neg hbracket, if_neg hbracket']

theorem marks_dropWhile {p : UInt8 → Bool} (hp : ∀ c ∈ special, p c = false) (l : Bytes) :
    marks .code (l.dropWhile p) = marks .code l := by
  induction l with
  | nil => rfl
  | cons c l ih =>
    rw [List.dropWhile_cons]
    split_ifs with hc
    · rw [ih, marks_plain]
      intro hspecial
      rw [hp c hspecial] at hc
      cases hc
    · rfl

theorem marks_append {s : Bytes} (hs : ∀ c ∈ s, c ∉ special) (l : Bytes) :
    marks .code (s ++ l) = marks .code l := by
  induction s with
  | nil => rfl
  | cons c s ih =>
    rw [List.forall_mem_cons] at hs
    rw [List.cons_append, marks_plain hs.1, ih hs.2]

theorem marks_skipSpaces (l : Bytes) : marks .code (l.dropWhile isSpace) = marks .code l :=
  marks_dropWhile (by decide +kernel) l

theorem marks_skipDigits (l : Bytes) : marks .code (l.dropWhile isDigit) = marks .code l :=
  marks_dropWhile (by decide +kernel) l

/-! ## What the reader skips -/

theorem marks_stringEnd (l : Location) : marks .string l = marks .code (stringEnd l).2 := by
  induction l using stringEnd.induct with
  | case1 => rfl
  | case2 c =>
    rw [marks_string, stringEnd]
    split_ifs <;> simp
  | case3 d rest ih =>
    rw [stringEnd, if_pos rfl, marks_string, if_pos rfl, ← ih]
    rfl
  | case4 d rest h => rw [stringEnd, if_neg h, if_pos rfl, marks_string, if_neg h, if_pos rfl]
  | case5 c d rest h1 h2 ih =>
    rw [stringEnd, if_neg h1, if_neg h2, marks_string, if_neg h1, if_neg h2]
    exact ih

theorem marks_cStyleComment (l : Location) :
    marks .block l = marks .code (cStyleCommentStop l).tail := by
  induction l using cStyleCommentStop.induct with
  | case1 c d rest h =>
    obtain ⟨rfl, rfl⟩ := h
    rw [cStyleCommentStop, if_pos ⟨rfl, rfl⟩, marks_block, if_pos rfl, marks_star, if_pos rfl]
    rfl
  | case2 c d rest h ih =>
    rw [cStyleCommentStop, if_neg h, ← ih, marks_block c]
    split_ifs with hc
    · rw [marks_star, if_neg fun hd => h ⟨hc, hd⟩, marks_block]
    · rfl
  | case3 rest h =>
    cases rest with
    | nil => rfl
    | cons c rest =>
      cases rest with
      | nil =>
        rw [marks_block]
        split_ifs <;> simp [cStyleCommentStop]
      | cons d rest => exact absurd rfl (h c d rest)

theorem marks_cppStyleComment (l : Location) :
    marks .line l = marks .code (cppStyleCommentStop l) := by
  induction l with
  | nil => rfl
  | cons c rest ih =>
    rw [marks_line]
    unfold cppStyleCommentStop
    split_ifs with hend hline hreturn hline
    · rfl
    · cases rest with
      | nil => rfl
      | cons d rest =>
        simp only
        split_ifs with hd
        · rw [hd]
          exact marks_plain (by decide) rest
        · rfl
    all_goals simp_all

theorem marks_skipFraction (l : Location) : marks .code (skipFraction l) = marks .code l := by
  unfold skipFraction
  split
  · rfl
  · split_ifs with hc
    · rw [hc, marks_skipDigits]
      exact (marks_plain (by decide) _).symm
    · rfl

theorem marks_skipSign (l : Location) : marks .code (skipSign l) = marks .code l := by
  unfold skipSign
  split
  · rfl
  · split_ifs with hc
    · rcases hc with rfl | rfl <;> exact (marks_plain (by decide) _).symm
    · rfl

theorem marks_skipExponent (l : Location) : marks .code (skipExponent l) = marks .code l := by
  unfold skipExponent
  split
  · rfl
  · split_ifs with hc
    · rw [marks_skipDigits, marks_skipSign]
      rcases hc with rfl | rfl <;> exact (marks_plain (by decide) _).symm
    · rfl

theorem marks_number (l : Location) :
    marks .code (skipExponent (skipFraction (l.dropWhile isDigit))) = marks .code l := by
  rw [marks_skipExponent, marks_skipFraction, marks_skipDigits]

/-! ## Nesting -/

/-- Behind `open_`, the brackets that are open, at most `levels` more are open at a time. A closing
bracket closes the last one that is open, if that is of its kind. -/
def nests : Nat → List Bracket → List Mark → Bool
  | _, _, [] => true
  | levels, open_, .opening bracket :: l => 0 < levels && nests (levels - 1) (bracket :: open_) l
  | levels, open_, .closing bracket :: l =>
    if open_.head? = some bracket then nests (levels + 1) open_.tail l else nests levels open_ l
  | levels, open_, .quoteComment :: l => nests levels open_ l

/-- A reader that has `open_` brackets open stands before `l`, where never more than `limit` are open.
The walk has these open too, and may have others that the reader has passed over. -/
def Within (limit : Nat) (open_ : List Bracket) (l : List Mark) : Prop :=
  ∃ levels all, open_.Sublist all ∧ levels + all.length = limit ∧ nests levels all l = true

variable {limit : Nat} {open_ : List Bracket} {bracket : Bracket} {l : List Mark}

theorem Within.length_le (h : Within limit open_ l) : open_.length ≤ limit := by
  obtain ⟨levels, all, hsub, hlimit, -⟩ := h
  have hle := hsub.length_le
  omega

theorem Within.opening (h : Within limit open_ (.opening bracket :: l)) :
    Within limit (bracket :: open_) l := by
  obtain ⟨levels, all, hsub, hlimit, hnests⟩ := h
  rw [nests, Bool.and_eq_true, decide_eq_true_eq] at hnests
  refine ⟨levels - 1, bracket :: all, hsub.cons_cons bracket, ?_, hnests.2⟩
  rw [List.length_cons]
  omega

theorem Within.tail (h : Within limit (bracket :: open_) l) : Within limit open_ l := by
  obtain ⟨levels, all, hsub, hrest⟩ := h
  exact ⟨levels, all, (List.sublist_cons_self bracket open_).trans hsub, hrest⟩

theorem Within.closing (h : Within limit (bracket :: open_) (.closing bracket :: l)) :
    Within limit open_ l := by
  obtain ⟨levels, all, hsub, hlimit, hnests⟩ := h
  cases all with
  | nil => exact absurd hsub (by simp)
  | cons last all =>
    rw [nests] at hnests
    split_ifs at hnests with hlast
    · cases hlast
      refine ⟨levels + 1, all, List.cons_sublist_cons.mp hsub, ?_, hnests⟩
      rw [List.length_cons] at hlimit
      omega
    · exact ⟨levels, last :: all, (List.sublist_cons_self _ _).trans hsub, hlimit, hnests⟩

/-- A closing bracket that the reader passes over is not of the kind of the last one it has open. -/
theorem Within.closing_other {other : Bracket}
    (h : Within limit (bracket :: open_) (.closing other :: l)) (hne : other ≠ bracket) :
    Within limit (bracket :: open_) l := by
  obtain ⟨levels, all, hsub, hlimit, hnests⟩ := h
  cases all with
  | nil => exact absurd hsub (by simp)
  | cons last all =>
    rw [nests] at hnests
    split_ifs at hnests with hlast
    · cases hlast
      refine ⟨levels + 1, all, ?_, ?_, hnests⟩
      · cases hsub with
        | cons _ hsub => exact hsub
        | cons_cons => exact absurd rfl hne
      · rw [List.length_cons] at hlimit
        omega
    · exact ⟨levels, last :: all, hsub, hlimit, hnests⟩

theorem Within.quoteComments {ms : List Mark} (hms : ∀ m ∈ ms, m = .quoteComment)
    (h : Within limit open_ (ms ++ l)) : Within limit open_ l := by
  induction ms with
  | nil => exact h
  | cons m ms ih =>
    rw [List.forall_mem_cons] at hms
    obtain ⟨rfl, hms⟩ := hms
    obtain ⟨levels, all, hsub, hlimit, hnests⟩ := h
    exact ih hms ⟨levels, all, hsub, hlimit, hnests⟩

end FaceDetection.Json

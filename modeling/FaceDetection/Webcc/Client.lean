import FaceDetection.Webcc.FormParts
import FaceDetection.Webcc.Target
import FaceDetection.Webcc.Wire

/-!
# What a client prepares

The request line that `CreateStartLine` writes, and the form that `Request::Prepare` puts behind its
own head. The server reads both back.
-/

open FaceDetection.Delimited FaceDetection.Pieces

namespace FaceDetection.Webcc

/-! ## Words -/

/-- Nothing in it ends a word of the request line, or the line. -/
def Word (s : Bytes) : Prop := ∀ c ∈ s, c ≠ ch ' ' ∧ c ≠ 13

instance (s : Bytes) : Decidable (Word s) := List.decidableBAll (fun c => c ≠ ch ' ' ∧ c ≠ 13) s

theorem splitCompress_append {token : UInt8} {a : Bytes} (ha : ∀ c ∈ a, c ≠ token)
    (piece rest : Bytes) :
    splitCompress token false piece (a ++ rest) = splitCompress token false (piece ++ a) rest := by
  induction a generalizing piece with
  | nil => simp
  | cons c a ih =>
    rw [List.cons_append, splitCompress, if_neg (ha c List.mem_cons_self),
      ih fun d hd => ha d (List.mem_cons_of_mem c hd), List.append_assoc, List.singleton_append]

theorem splitCompress_word {token : UInt8} {a : Bytes} (ha : ∀ c ∈ a, c ≠ token)
    (piece rest : Bytes) :
    splitCompress token false piece (a ++ token :: rest) =
      (piece ++ a) :: splitCompress token true [] rest := by
  rw [splitCompress_append ha, splitCompress, if_pos rfl, if_neg (by simp)]

/-- A line of a method, a target that begins with a slash, and the version. -/
theorem splitCompress_requestLine {method rest : Bytes} (hmethod : Word method) (hrest : Word rest) :
    splitCompress (ch ' ') false []
        (method ++ ascii " " ++ (ch '/' :: rest) ++ ascii " HTTP/1.1") =
      [method, ch '/' :: rest, ascii "HTTP/1.1"] := by
  have hline : method ++ ascii " " ++ (ch '/' :: rest) ++ ascii " HTTP/1.1" =
      method ++ ch ' ' :: ch '/' :: (rest ++ ch ' ' :: ascii "HTTP/1.1") := by
    simp [ascii]
  have hslash : ch '/' ≠ ch ' ' := by decide
  have hversion : splitCompress (ch ' ') true [] (ascii "HTTP/1.1") = [ascii "HTTP/1.1"] := by decide
  rw [hline, splitCompress_word (fun c hc => (hmethod c hc).1), splitCompress, if_neg hslash,
    splitCompress_word (fun c hc => (hrest c hc).1), hversion]
  rfl

/-! ## The request line -/

/-- The line that `CreateStartLine` writes. -/
def Request.requestLine (r : Request) : Bytes :=
  r.method ++ ascii " " ++ Url.target r.url.path r.url.query ++ ascii " HTTP/1.1"

/-- A request without a start line, whose method and URL are one word each. -/
structure Request.Unsent (r : Request) : Prop where
  start_line : r.start_line = []
  host : r.url.host ≠ []
  method : Word r.method
  path : Word r.url.path
  query : Word r.url.query

theorem Request.createStartLine_eq {r : Request} (h : r.Unsent) :
    r.createStartLine = some { r with start_line := r.requestLine } := by
  unfold Request.createStartLine Request.requestLine Url.target
  rw [if_neg (by simp [h.start_line]), if_neg h.host]
  split_ifs
  · simp only [List.append_assoc]
  · simp only [List.append_nil]

theorem Request.Unsent.line {r : Request} (h : r.Unsent) :
    RequestParser.RequestLine r.requestLine r.method (Url.target r.url.path r.url.query) := by
  have hquestion : Word (ascii "?") := by decide +kernel
  have hword : Word (r.url.path ++ if r.url.query ≠ [] then ascii "?" ++ r.url.query else []) := by
    intro c hc
    rcases List.mem_append.mp hc with hc | hc
    · exact h.path c hc
    · split_ifs at hc
      · rcases List.mem_append.mp hc with hc | hc
        · exact hquestion c hc
        · exact h.query c hc
      · cases hc
  have htarget : Url.target r.url.path r.url.query =
      ch '/' :: (r.url.path ++ if r.url.query ≠ [] then ascii "?" ++ r.url.query else []) := by
    simp [Url.target, ascii]
  refine ⟨?_, ascii "HTTP/1.1", ?_⟩
  · have hfixed : (13 : UInt8) ∉ ascii " " ∧ (13 : UInt8) ≠ ch '/' ∧
        (13 : UInt8) ∉ ascii " HTTP/1.1" := by decide
    apply isRecord_of_not_mem
    unfold Request.requestLine
    rw [htarget]
    simp only [List.mem_append, List.mem_cons, not_or]
    refine ⟨⟨⟨fun hc => (h.method _ hc).2 rfl, hfixed.1⟩, hfixed.2.1, ?_⟩, hfixed.2.2⟩
    rw [← not_or, ← List.mem_append]
    exact fun hc => (hword _ hc).2 rfl
  · unfold Request.requestLine
    rw [htarget]
    exact splitCompress_requestLine h.method hword

/-! ## The query -/

/-- The query of a URL tells these parameters, escaped or not. -/
structure Url.Tells (url : Url) (query : UrlQuery) : Prop where
  word : Word url.query
  decoded : decode url.query = some query.plain

/-- Parameters that need no escape, as `AddQuery` joins them. -/
theorem Url.tells_addQuery {query : UrlQuery}
    (hplain : ∀ c ∈ query.plain, c ≠ ch ' ' ∧ c ≠ 13 ∧ c ≠ ch '%' ∧ c ≤ 127) {url : Url}
    (hurl : url.query = []) :
    (query.entries.foldl (fun url e => url.addQuery e.1 e.2) url).Tells query := by
  have hquery := UrlQuery.foldl_addQuery query hurl
  refine ⟨?_, ?_⟩
  · rw [hquery]
    exact fun c hc => ⟨(hplain c hc).1, (hplain c hc).2.1⟩
  · have hdecode := decode_plain (fun c hc => (hplain c hc).2.2) []
    rw [List.append_nil] at hdecode
    rw [hquery, hdecode]
    exact congrArg some (List.append_nil _)

theorem encodeQuery_word (query : Bytes) : Word (encodeQuery query) := by
  have hdigits : ∀ d ∈ (0 : UInt8) :: hexDigits, d ≠ ch ' ' ∧ d ≠ 13 := by decide +kernel
  have hdigit : ∀ i, hexDigits.getD i 0 ≠ ch ' ' ∧ hexDigits.getD i 0 ≠ 13 := by
    intro i
    apply hdigits
    rw [List.getD_eq_getElem?_getD]
    cases hd : hexDigits[i]? with
    | none => simp
    | some d => simp [List.mem_of_getElem? hd]
  have hother : isQueryChar (ch ' ') = false ∧ isQueryChar 13 = false := by decide +kernel
  intro c hc
  unfold encodeQuery encodeImpl at hc
  obtain ⟨b, -, hb⟩ := List.mem_flatMap.mp hc
  split_ifs at hb with hencode
  · simp only [List.mem_cons, List.not_mem_nil, or_false] at hb
    rcases hb with rfl | rfl | rfl
    · decide
    · exact hdigit _
    · exact hdigit _
  · rw [List.mem_singleton] at hb
    subst hb
    simp only [Bool.or_eq_true, Bool.not_eq_true', not_or, Bool.not_eq_false] at hencode
    have hquery := hencode.1.1
    refine ⟨?_, ?_⟩
    · rintro rfl
      rw [hother.1] at hquery
      cases hquery
    · rintro rfl
      rw [hother.2] at hquery
      cases hquery

/-- Any parameters, as `UrlQuery::ToString` escapes them. -/
theorem Url.tells_toString {query : UrlQuery} {url : Url} (hurl : url.query = query.toString) :
    url.Tells query := by
  rw [UrlQuery.toString_eq] at hurl
  refine ⟨?_, ?_⟩
  · rw [hurl]
    exact encodeQuery_word query.plain
  · rw [hurl]
    exact decode_encodeQuery query.plain

/-- A client's request line, there and back. The method arrives, and the path and the query do
exactly if no `://` is in the target: `Url::Parse` looks for a scheme in all of it. What arrives as the
query is taken apart into the same parameters. -/
theorem Request.createStartLine_arrives {r : Request} {query : UrlQuery} (h : r.Unsent)
    (hpath : PathText r.url.path) (htells : r.url.Tells query) (hquery : query.Separable)
    (request : Request) :
    ∃ sent got, r.createStartLine = some sent ∧
      RequestParser.parseStartLine sent.start_line request = some got ∧ got.method = r.method ∧
      (got.url.path = r.url.path ∧ got.url.query = query.plain ↔
        ¬ ascii "://" <:+: Url.target r.url.path query.plain) ∧
      UrlQuery.parse query.plain = query := by
  obtain ⟨version, hfields⟩ := h.line.fields
  refine ⟨_, { request with method := r.method, url := Url.init (Url.target r.url.path r.url.query) },
    Request.createStartLine_eq h, ?_, rfl, Url.init_target hpath htells.decoded,
    UrlQuery.parse_plain hquery⟩
  unfold RequestParser.parseStartLine
  simp only [hfields]

/-- A client that asks for the second page. -/
def pageRequest : Request :=
  { Request.new with
    method := ascii "GET"
    url := { Url.clear with host := ascii "localhost", path := ascii "images" }.addQuery
      (ascii "page") (ascii "2") }

theorem Request.createStartLine_arrives_page :
    let query : UrlQuery := Store.empty.set (ascii "page") (ascii "2")
    ∃ sent got, pageRequest.createStartLine = some sent ∧
      RequestParser.parseStartLine sent.start_line Request.new = some got ∧
      got.url.path = ascii "images" ∧ UrlQuery.parse got.url.query = query := by
  intro query
  have hunsent : pageRequest.Unsent :=
    ⟨rfl, by decide, by decide +kernel, by decide +kernel, by decide +kernel⟩
  have hpath : PathText pageRequest.url.path := by
    unfold PathText
    decide +kernel
  have htells : pageRequest.url.Tells query := by
    have hplain : ∀ c ∈ query.plain, c ≠ ch ' ' ∧ c ≠ 13 ∧ c ≠ ch '%' ∧ c ≤ 127 := by
      decide +kernel
    have hempty : { Url.clear with host := ascii "localhost", path := ascii "images" }.query = [] := rfl
    exact Url.tells_addQuery hplain hempty
  obtain ⟨sent, got, hsent, hgot, -, harrives, hparse⟩ :=
    Request.createStartLine_arrives hunsent hpath htells ⟨by decide, by decide⟩ Request.new
  obtain ⟨hpath', hquery'⟩ := harrives.mpr (by decide)
  refine ⟨sent, got, hsent, hgot, hpath', ?_⟩
  rw [hquery']
  exact hparse

/-! ## The head of a form -/

/-- A boundary that arrives as it is. -/
structure Boundary (boundary : Bytes) : Prop where
  nonempty : boundary ≠ []
  line : (13 : UInt8) ∉ boundary
  edges : trim boundary = boundary

theorem Boundary.last {boundary : Bytes} (h : Boundary boundary) :
    boundary.rdropWhile isSpace = boundary := by
  have hedges := h.edges
  unfold trim at hedges
  conv_lhs => rw [← hedges]
  rw [List.rdropWhile_idempotent]
  exact hedges

/-- The Content-Type of a form. -/
def formContentType (boundary : Bytes) : Bytes := ascii "multipart/form-data; boundary=" ++ boundary

/-- What `Prepare` writes as the host. -/
def hostText (url : Url) : Bytes :=
  if url.port = [] then url.host else url.host ++ ascii ":" ++ url.port

/-- The headers that `Prepare` adds to those of a form. -/
def formHeaders (url : Url) (boundary : Bytes) (n : Nat) : List Header :=
  [(kHost, hostText url), (kContentType, formContentType boundary), (kContentLength, uintToString n)]

/-- A request with a form that has not been sent, whose own headers are read as they are written and
are none of those that `Prepare` adds. -/
structure Request.UnsentForm (reserve : Nat → Bool) (boundary : Bytes) (r : Request) : Prop extends
    Request.Unsent r where
  content : r.content = []
  parts : r.form_parts ≠ []
  delimits : Boundary boundary
  written_host : Written (kHost, hostText r.url)
  headers : RequestParser.Readable reserve r.headers.entries
  plain : announcesChunks r.headers.entries = false
  added : ∀ h ∈ r.headers.entries,
    upper h.1 ∉ [upper kHost, upper kContentType, upper kContentLength]
  room : (Request.formPayload boundary r.form_parts).length < kInvalidLength
  reserved : reserve (Request.formPayload boundary r.form_parts).length = true

namespace Request.UnsentForm

variable {reserve : Nat → Bool} {uuid : Bytes} {r : Request}

/-- The headers in the order in which they are written. -/
theorem entries_setAll {boundary : Bytes} (h : r.UnsentForm reserve boundary) (n : Nat) :
    (r.headers.setAll (formHeaders r.url boundary n)).entries =
      r.headers.entries ++ formHeaders r.url boundary n := by
  apply Store.entries_setAll
  rw [List.map_append, List.nodup_append]
  refine ⟨r.headers.distinct, ?_, ?_⟩
  · change [upper kHost, upper kContentType, upper kContentLength].Nodup
    decide
  · intro a ha b hb heq
    obtain ⟨e, he, rfl⟩ := List.mem_map.mp ha
    subst heq
    exact h.added e he hb

end Request.UnsentForm

end FaceDetection.Webcc

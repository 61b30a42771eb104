import FaceDetection.Webcc.Url

/-!
# A request target

The path and the query that a client writes behind the method, and what `Url::Init` makes of them.
They arrive unless there is something in them that looks like the end of a scheme.
-/

open FaceDetection.Delimited

namespace FaceDetection.Webcc

/-! ## Escapes -/

theorem escape_byte : ∀ n : Fin 256,
    hexToDecimal (hexDigits.getD ((UInt8.ofFin n >>> 4) &&& 0xF).toNat 0) =
        some ((UInt8.ofFin n >>> 4) &&& 0xF) ∧
      hexToDecimal (hexDigits.getD (UInt8.ofFin n &&& 0xF).toNat 0) = some (UInt8.ofFin n &&& 0xF) ∧
      (((UInt8.ofFin n >>> 4) &&& 0xF) <<< 4) + (UInt8.ofFin n &&& 0xF) = UInt8.ofFin n := by
  decide +kernel

theorem isQueryChar_le : ∀ n : Fin 256,
    isQueryChar (UInt8.ofFin n) = true → UInt8.ofFin n ≤ 127 := by
  decide +kernel

theorem decode_escape (c : UInt8) (s : Bytes) :
    decode ([ch '%', hexDigits.getD ((c >>> 4) &&& 0xF).toNat 0,
      hexDigits.getD (c &&& 0xF).toNat 0] ++ s) = (decode s).map fun raw => c :: raw := by
  obtain ⟨hhigh, hlow, hbyte⟩ := escape_byte c.toFin
  rw [UInt8.ofFin_toFin] at hhigh hlow hbyte
  rw [List.cons_append, List.cons_append, List.cons_append, List.nil_append, decode, if_pos rfl]
  simp only [hhigh, hlow, hbyte]

theorem decode_plain_cons {c : UInt8} (hc : c ≠ ch '%') (hle : c ≤ 127) (s : Bytes) :
    decode (c :: s) = (decode s).map fun raw => c :: raw := by
  rw [decode.eq_def]
  simp only
  rw [if_neg hc, if_neg (by simpa using hle)]

theorem decode_plain {u : Bytes} (hu : ∀ c ∈ u, c ≠ ch '%' ∧ c ≤ 127) (s : Bytes) :
    decode (u ++ s) = (decode s).map fun raw => u ++ raw := by
  induction u with
  | nil => simp
  | cons c u ih =>
    obtain ⟨hc, hle⟩ := hu c List.mem_cons_self
    rw [List.cons_append, decode_plain_cons hc hle, ih fun b hb => hu b (List.mem_cons_of_mem c hb),
      Option.map_map]
    rfl

theorem decode_encodeQuery (query : Bytes) : decode (encodeQuery query) = some query := by
  induction query with
  | nil => rfl
  | cons c query ih =>
    unfold encodeQuery encodeImpl at ih ⊢
    rw [List.flatMap_cons]
    split_ifs with hencode
    · rw [decode_escape, ih]
      rfl
    · simp only [Bool.or_eq_true, Bool.not_eq_true', decide_eq_true_eq, not_or,
        Bool.not_eq_false] at hencode
      have hle := isQueryChar_le c.toFin
      rw [UInt8.ofFin_toFin] at hle
      rw [List.singleton_append, decode_plain_cons hencode.1.2 (hle hencode.1.1), ih]
      rfl

theorem decode_eq_self {s raw : Bytes} (hs : ch '%' ∉ s) (h : decode s = some raw) : raw = s := by
  induction s generalizing raw with
  | nil =>
    rw [decode] at h
    exact (Option.some.inj h).symm
  | cons c s ih =>
    obtain ⟨hc, hs⟩ := List.ne_and_not_mem_of_not_mem_cons hs
    rw [decode.eq_def] at h
    simp only at h
    rw [if_neg hc.symm] at h
    split_ifs at h
    obtain ⟨raw', hraw, rfl⟩ := Option.map_eq_some_iff.mp h
    rw [ih hs hraw]

/-- A text that can be decoded is parsed as what it says. -/
theorem Url.init_of_decode {str raw : Bytes} (h : decode str = some raw) :
    Url.init str = Url.parse raw := by
  unfold Url.init
  by_cases hescape : ch '%' ∈ str
  · rw [if_pos hescape, h]
  · rw [if_neg hescape, decode_eq_self hescape h]

/-! ## Queries -/

/-- The text of a query before it is encoded. -/
def UrlQuery.plain (query : UrlQuery) : Bytes :=
  [ch '&'].intercalate (query.entries.map fun e => e.1 ++ ascii "=" ++ e.2)

/-- A query that can be taken apart at its separators. -/
structure UrlQuery.Separable (query : UrlQuery) : Prop where
  key : ∀ e ∈ query.entries, e.1 ≠ [] ∧ ch '=' ∉ e.1 ∧ ch '&' ∉ e.1
  value : ∀ e ∈ query.entries, ch '&' ∉ e.2

theorem UrlQuery.toString_eq (query : UrlQuery) : query.toString = encodeQuery query.plain := by
  have hfold : ∀ (es : List (Bytes × Bytes)) (e : Bytes × Bytes) (s : Bytes),
      es.foldl (fun str e => str ++ ascii "&" ++ (e.1 ++ ascii "=" ++ e.2))
          (s ++ (e.1 ++ ascii "=" ++ e.2)) =
        s ++ [ch '&'].intercalate ((e :: es).map fun e => e.1 ++ ascii "=" ++ e.2) := by
    intro es
    induction es with
    | nil =>
      intro e s
      simp
    | cons e' es ih =>
      intro e s
      rw [List.foldl_cons, ih, List.map_cons, List.map_cons, List.map_cons,
        List.intercalate_cons_cons]
      simp [ascii]
  unfold UrlQuery.toString UrlQuery.plain
  cases hentries : query.entries with
  | nil => rfl
  | cons e es => exact congrArg encodeQuery (hfold es e [])

theorem splitKeyValue_entry {e : Bytes × Bytes} (hkey : e.1 ≠ []) (heq : ch '=' ∉ e.1) :
    splitKeyValue (e.1 ++ ascii "=" ++ e.2) = some e := by
  unfold splitKeyValue
  have hcut : cut [ch '='] (e.1 ++ ascii "=" ++ e.2) = some e :=
    (isRecord_of_not_mem (d := []) heq).cut_eq e.2
  rw [hcut]
  exact if_neg hkey

/-- A query is parsed back as it was. -/
theorem UrlQuery.parse_plain {query : UrlQuery} (h : query.Separable) :
    UrlQuery.parse query.plain = query := by
  by_cases hnone : query.entries = []
  · have hplain : query.plain = [] := by simp [UrlQuery.plain, hnone]
    rw [hplain]
    exact (Store.ext hnone).symm
  · obtain ⟨e, es, hentries⟩ := List.exists_cons_of_ne_nil hnone
    have hplain : query.plain ≠ [] := by
      intro hnil
      have hmem : ch '=' ∈ query.plain := by
        unfold UrlQuery.plain
        rw [hentries, List.map_cons]
        cases es <;> simp [ascii, List.intercalate_cons_cons]
      rw [hnil] at hmem
      cases hmem
    have hsplit : query.plain.splitOn (ch '&') =
        query.entries.map fun e => e.1 ++ ascii "=" ++ e.2 := by
      apply List.splitOn_intercalate
      · intro kv hkv
        obtain ⟨e, he, rfl⟩ := List.mem_map.mp hkv
        have hsep : ch '&' ∉ ascii "=" := by decide
        simp only [List.mem_append, not_or]
        exact ⟨⟨(h.key e he).2.2, hsep⟩, h.value e he⟩
      · simpa using hnone
    have hread : (query.entries.map fun e => e.1 ++ ascii "=" ++ e.2).filterMap splitKeyValue =
        query.entries := by
      rw [List.filterMap_map]
      conv_rhs => rw [← List.filterMap_some (l := query.entries)]
      apply List.filterMap_congr
      intro e he
      exact splitKeyValue_entry (h.key e he).1 (h.key e he).2.1
    unfold UrlQuery.parse
    rw [if_neg hplain, hsplit, hread]
    apply Store.ext
    rw [Store.entries_addAll]
    · rfl
    · simpa using query.distinct

/-- `AddQuery`, called for one parameter after the other, joins them. -/
theorem UrlQuery.foldl_addQuery (query : UrlQuery) {url : Url} (hurl : url.query = []) :
    (query.entries.foldl (fun url e => url.addQuery e.1 e.2) url).query = query.plain := by
  have hfold : ∀ (es : List (Bytes × Bytes)) (e : Bytes × Bytes) (url : Url) (s : Bytes),
      url.query = s ++ (e.1 ++ ascii "=" ++ e.2) →
      (es.foldl (fun url e => url.addQuery e.1 e.2) url).query =
        s ++ [ch '&'].intercalate ((e :: es).map fun e => e.1 ++ ascii "=" ++ e.2) := by
    intro es
    induction es with
    | nil =>
      intro e url s h
      simpa using h
    | cons e' es ih =>
      intro e url s h
      have hne : url.query ≠ [] := by simp [h, ascii]
      have hquery : (url.addQuery e'.1 e'.2).query =
          url.query ++ ascii "&" ++ (e'.1 ++ ascii "=" ++ e'.2) := by
        unfold Url.addQuery
        simp only [if_neg hne]
      rw [List.foldl_cons, ih e' _ _ hquery, h, List.map_cons, List.map_cons, List.map_cons,
        List.intercalate_cons_cons]
      simp [ascii]
  unfold UrlQuery.plain
  cases hentries : query.entries with
  | nil => exact hurl
  | cons e es =>
    rw [List.foldl_cons]
    apply hfold es e _ []
    unfold Url.addQuery
    simp only [if_pos hurl]

/-! ## Targets -/

/-- What `CreateStartLine` writes of a URL behind the method. -/
def Url.target (path query : Bytes) : Bytes :=
  ascii "/" ++ path ++ if query ≠ [] then ascii "?" ++ query else []

/-- The characters of a path that are written as they are and do not end it. -/
def PathText (path : Bytes) : Prop := ∀ c ∈ path, c ≠ ch '?' ∧ c ≠ ch '%' ∧ c ≤ 127

theorem decode_ne_nil {s raw : Bytes} (hs : s ≠ []) (h : decode s = some raw) : raw ≠ [] := by
  rintro rfl
  obtain ⟨c, s, rfl⟩ := List.exists_cons_of_ne_nil hs
  rw [decode.eq_def] at h
  simp only at h
  split_ifs at h
  · split at h
    · split at h
      · simp at h
      · cases h
    · cases h
  · simp at h

theorem decode_target {path query raw : Bytes} (hpath : PathText path)
    (hquery : decode query = some raw) :
    decode (Url.target path query) = some (Url.target path raw) := by
  have hslash : ch '/' ≠ ch '%' ∧ ch '/' ≤ 127 := by decide
  have hquestion : ch '?' ≠ ch '%' ∧ ch '?' ≤ 127 := by decide
  have hfront : ∀ c ∈ ascii "/" ++ path, c ≠ ch '%' ∧ c ≤ 127 := by
    intro c hc
    rcases List.mem_append.mp hc with hc | hc
    · rwa [List.mem_singleton.mp hc]
    · exact (hpath c hc).2
  unfold Url.target
  rw [decode_plain hfront]
  by_cases hnone : query = []
  · subst hnone
    cases hquery
    rfl
  · have hraw := decode_ne_nil hnone hquery
    have hmark : ∀ c ∈ ascii "?", c ≠ ch '%' ∧ c ≤ 127 := by
      intro c hc
      rwa [List.mem_singleton.mp hc]
    rw [if_pos hnone, if_pos hraw, decode_plain hmark, hquery]
    rfl

/-- What `Url::Parse` makes of a target without a scheme. -/
theorem Url.parse_of_no_scheme {path query : Bytes} (hpath : ch '?' ∉ path)
    (hnone : cut (ascii "://") (Url.target path query) = none) :
    Url.parse (Url.target path query) =
      { scheme := [], host := [], port := [], path := path, query := query } := by
  have htrim : trimLeft (Url.target path query) = Url.target path query := rfl
  have hslash : cut [ch '/'] (Url.target path query) =
      some ([], path ++ if query ≠ [] then ascii "?" ++ query else []) := rfl
  have hquestion : cutQuery (path ++ if query ≠ [] then ascii "?" ++ query else []) =
      (path, query) := by
    unfold cutQuery
    split_ifs with hquery
    · have hcut : cut [ch '?'] (path ++ ascii "?" ++ query) = some (path, query) :=
        (isRecord_of_not_mem (d := []) hpath).cut_eq query
      rw [← List.append_assoc, hcut]
      rfl
    · rw [List.append_nil, (cut_eq_none_iff path).mpr, not_not.mp hquery]
      · rfl
      · intro hcolon
        exact hpath (hcolon.mem List.mem_cons_self)
  unfold Url.parse
  simp only [htrim, hnone, Option.getD_none, hslash, hquestion]
  rfl

/-- What is taken for the scheme is missing behind it. -/
theorem Url.parse_length (str : Bytes) {a b : Bytes}
    (hcut : cut (ascii "://") (trimLeft str) = some (a, b)) :
    (Url.parse str).path.length + (Url.parse str).query.length ≤ b.length := by
  have hquery : ∀ s, (cutQuery s).1.length + (cutQuery s).2.length ≤ s.length := by
    intro s
    unfold cutQuery
    cases hs : cut [ch '?'] s with
    | none => simp
    | some p =>
      have hlen := cut_length hs
      simp only [Option.getD_some]
      omega
  unfold Url.parse
  simp only [hcut, Option.getD_some]
  cases hslash : cut [ch '/'] b with
  | none =>
    have hlen := hquery b
    simp only [List.length_nil]
    omega
  | some p =>
    have hlen := hquery p.2
    have hbehind := cut_length hslash
    simp only
    omega

/-- A path and a query arrive exactly if neither they nor what is between them look like the end of
a scheme. -/
theorem Url.init_target {path query raw : Bytes} (hpath : PathText path)
    (hquery : decode query = some raw) :
    (Url.init (Url.target path query)).path = path ∧ (Url.init (Url.target path query)).query = raw ↔
      ¬ ascii "://" <:+: Url.target path raw := by
  rw [Url.init_of_decode (decode_target hpath hquery), ← cut_eq_none_iff]
  constructor
  · rintro ⟨harrives, hquery⟩
    by_contra hscheme
    obtain ⟨⟨a, b⟩, hcut⟩ := Option.ne_none_iff_exists'.mp hscheme
    have hless := Url.parse_length (Url.target path raw) hcut
    have hlen := cut_length hcut
    rw [harrives, hquery] at hless
    have hone : (ascii "/").length = 1 ∧ (ascii "?").length = 1 ∧ (ascii "://").length = 3 := by
      decide
    unfold Url.target at hlen
    split_ifs at hlen
    · simp only [List.length_append, hone] at hlen
      omega
    · simp only [List.length_append, hone, List.length_nil] at hlen
      omega
  · intro hnone
    rw [Url.parse_of_no_scheme (fun hmem => (hpath _ hmem).1 rfl) hnone]
    exact ⟨rfl, rfl⟩

/-- With a URL in its query a target of the service loses its path. -/
example : (Url.init (ascii "/images?u=http://x")).path = [] := by decide

end FaceDetection.Webcc

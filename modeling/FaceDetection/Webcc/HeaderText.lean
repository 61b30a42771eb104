import FaceDetection.Json.Tokens
import FaceDetection.Webcc.HeaderScan

/-!
# Headers, written and read

What the parser makes of header lines as `Message::Prepare` writes them: it reads the same entries,
and the three headers it looks at itself.
-/

open FaceDetection.Delimited

namespace FaceDetection.Webcc

/-! ## Numbers -/

theorem leadingDigits_of_isDigit {s : Bytes} (h : ∀ c ∈ s, isDigit c = true) :
    leadingDigits 10 s = s.map fun c => c.toNat - 48 := by
  induction s with
  | nil => rfl
  | cons c s ih =>
    have hc := h c List.mem_cons_self
    have hlt : c.toNat - 48 < 10 := by
      simp only [isDigit, decide_eq_true_eq, UInt8.le_iff_toNat_le] at hc
      have h57 : (57 : UInt8).toNat = 57 := rfl
      omega
    unfold leadingDigits digitValue
    rw [if_pos hc]
    simp only
    rw [if_pos hlt, ih fun c hc => h c (List.mem_cons_of_mem _ hc), List.map_cons]

theorem ofDigits_map (s : Bytes) :
    ofDigits 10 (s.map fun c => c.toNat - 48) = Json.digitsValue s 0 := by
  unfold ofDigits Json.digitsValue
  rw [List.foldl_map]
  congr 1
  funext n c
  omega

theorem skipPrefix_ten (s : Bytes) : skipPrefix 10 s = s := by
  unfold skipPrefix
  split <;> simp

theorem digit_start {c : UInt8} (h : isDigit c = true) :
    isSpace c = false ∧ c ≠ ch '-' ∧ c ≠ ch '+' := by
  simp only [isDigit, decide_eq_true_eq, UInt8.le_iff_toNat_le] at h
  have h48 : (48 : UInt8).toNat = 48 := rfl
  have h13 : (13 : UInt8).toNat = 13 := rfl
  have h32 : (32 : UInt8).toNat = 32 := rfl
  have hminus : (ch '-').toNat = 45 := rfl
  have hplus : (ch '+').toNat = 43 := rfl
  refine ⟨?_, fun heq => ?_, fun heq => ?_⟩
  · unfold isSpace
    simp only [decide_eq_false_iff_not, not_or, not_and, UInt8.le_iff_toNat_le]
    refine ⟨fun heq => ?_, fun _ => by omega⟩
    rw [heq] at h
    omega
  · rw [heq] at h
    omega
  · rw [heq] at h
    omega

/-- `std::stoul` reads what `std::to_string` writes. -/
theorem stoul_uintToString {n : Nat} (h : n < 2 ^ 64) : stoul (uintToString n) 10 = some n := by
  have hdigits := Json.isDigit_uintToString n
  have hvalue := Json.digitsValue_uintToString n
  have hne : uintToString n ≠ [] := by
    unfold uintToString
    simp [Nat.toDigits_ne_nil]
  have hstart : takeSign (trimLeft (uintToString n)) = (false, uintToString n) := by
    cases hs : uintToString n with
    | nil => exact absurd hs hne
    | cons c rest =>
      obtain ⟨hspace, hminus, hplus⟩ := digit_start (hdigits c (by rw [hs]; exact List.mem_cons_self))
      unfold trimLeft
      rw [List.dropWhile_cons_of_neg (by simp [hspace]), takeSign, if_neg hminus, if_neg hplus]
  unfold stoul
  simp only [hstart, skipPrefix_ten, leadingDigits_of_isDigit hdigits, ofDigits_map, hvalue]
  rw [if_neg]
  · rfl
  · simp only [List.map_eq_nil_iff, hne, false_or]
    omega

/-! ## One header -/

/-- The line of a header, as `Message::Prepare` writes it. -/
def headerLine (h : Header) : Bytes := h.1 ++ ascii ": " ++ h.2

theorem headerLines_eq (es : List Header) :
    headerLines es = (es.map headerLine).flatMap (· ++ kCRLF) := by
  unfold headerLines
  rw [List.flatMap_map]
  rfl

/-- A header that `Split2` takes apart as it was put together: no line ends in it, no colon comes
before the first, and nothing around its parts is trimmed. -/
structure Written (h : Header) : Prop where
  record : IsRecord kCRLF (headerLine h)
  colon : ch ':' ∉ h.1
  key : trim h.1 = h.1
  value : trim (ch ' ' :: h.2) = h.2

instance (h : Header) : Decidable (Written h) :=
  decidable_of_iff (IsRecord kCRLF (headerLine h) ∧ ch ':' ∉ h.1 ∧ trim h.1 = h.1 ∧
    trim (ch ' ' :: h.2) = h.2)
    ⟨fun ⟨record, colon, key, value⟩ => ⟨record, colon, key, value⟩,
      fun ⟨record, colon, key, value⟩ => ⟨record, colon, key, value⟩⟩

theorem Written.split2 {h : Header} (hw : Written h) : split2 (headerLine h) (ch ':') = some h := by
  have hline : headerLine h = h.1 ++ [ch ':'] ++ ch ' ' :: h.2 := by
    simp [headerLine, ascii]
  unfold Webcc.split2
  rw [hline, (isRecord_of_not_mem (d := []) hw.colon).cut_eq, Option.map_some, hw.key, hw.value]

/-- A header list that announces chunks. -/
def announcesChunks (es : List Header) : Bool :=
  es.any fun h => iequals h.1 kTransferEncoding && h.2 = ascii "chunked"

/-- A header that `ParseHeaderLine` does not object to. -/
structure Accepted (reserve : Nat → Bool) (h : Header) : Prop where
  length : iequals h.1 kContentLength = true → ∃ n, stoul h.2 10 = some n ∧ reserve n = true
  type : iequals h.1 kContentType = true → (ContentType.init h.2).valid = true

namespace Parser

variable {M D : Type} [IsMessage M] (reserve : Nat → Bool) (parseStartLine : Bytes → M → Option M)

/-- What an accepted header does to the parser. -/
def applyHeader (p : Parser M D) (h : Header) : Parser M D :=
  { p.onMessage fun m =>
      { m with
        content_type :=
          if iequals h.1 kContentType then ContentType.init h.2 else m.content_type }.setHeader h.1 h.2
    with
    content_length :=
      if iequals h.1 kContentLength then (stoul h.2 10).getD 0 else p.content_length
    content_length_parsed := p.content_length_parsed || iequals h.1 kContentLength
    chunked := p.chunked || (iequals h.1 kTransferEncoding && h.2 = ascii "chunked") }

theorem iequals_other {a b c : Bytes} (h : iequals a b = true) (hbc : upper b ≠ upper c) :
    iequals a c = false := by
  unfold iequals at h ⊢
  rw [decide_eq_true_eq] at h
  rw [decide_eq_false_iff_not, h]
  exact hbc

theorem parseHeaderLine_written (p : Parser M D) {h : Header} (hw : Written h)
    (ha : Accepted reserve h) :
    p.parseHeaderLine reserve (headerLine h) = (true, p.applyHeader h) := by
  unfold parseHeaderLine applyHeader
  rw [hw.split2]
  by_cases hlength : iequals h.1 kContentLength = true
  · have htype := iequals_other hlength (c := kContentType) (by decide)
    have hencoding := iequals_other hlength (c := kTransferEncoding) (by decide)
    obtain ⟨n, hn, hreserve⟩ := ha.length hlength
    simp [hlength, htype, hencoding, hn, hreserve, onMessage, base]
  by_cases htype : iequals h.1 kContentType = true
  · have hencoding := iequals_other htype (c := kTransferEncoding) (by decide)
    have hvalid := ha.type htype
    simp [hlength, htype, hencoding, hvalid, onMessage, base]
  by_cases hencoding : iequals h.1 kTransferEncoding = true
  · by_cases hchunked : h.2 = ascii "chunked" <;>
      simp [hlength, htype, hencoding, hchunked, onMessage, base]
  · simp [hlength, htype, hencoding, onMessage, base]

/-! ## Many headers -/

def applyHeaders (p : Parser M D) (es : List Header) : Parser M D := es.foldl applyHeader p

/-- The headers set one entry after the other; of several Content-Length or Content-Type headers the
last counts, and any Transfer-Encoding header can announce chunks. -/
theorem applyHeaders_eq (p : Parser M D) (es : List Header) :
    applyHeaders p es =
      { p with
        message := IsMessage.withMessage p.message
          { p.base with
            headers := p.base.headers.setAll es
            content_type := ((Store.lookup upper kContentType es.reverse).map
              ContentType.init).getD p.base.content_type }
        content_length := ((Store.lookup upper kContentLength es.reverse).map fun v =>
          (stoul v 10).getD 0).getD p.content_length
        content_length_parsed :=
          p.content_length_parsed || (Store.lookup upper kContentLength es.reverse).isSome
        chunked := p.chunked || announcesChunks es } := by
  induction es generalizing p with
  | nil =>
    have hsame := congrArg (fun message => { p with message := message })
      (IsMessage.withMessage_message p.message)
    simp only [applyHeaders, List.foldl_nil, List.reverse_nil, Store.lookup, Option.map_none,
      Option.getD_none, Store.setAll_nil, announcesChunks, List.any_nil, Bool.or_false,
      Option.isSome_none, base]
    exact hsame.symm
  | cons h es ih =>
    have hcons : applyHeaders p (h :: es) = applyHeaders (p.applyHeader h) es := rfl
    rw [hcons, ih]
    simp only [applyHeader, onMessage, base, IsMessage.message_withMessage,
      IsMessage.withMessage_withMessage, List.reverse_cons, Store.lookup_append, Store.lookup,
      Message.setHeader, Store.setAll_cons, announcesChunks, List.any_cons, Bool.or_assoc, iequals]
    congr 1
    · congr 2
      by_cases htype : upper h.1 = upper kContentType <;>
        cases Store.lookup upper kContentType es.reverse <;> simp [htype]
    · by_cases hlength : upper h.1 = upper kContentLength <;>
        cases Store.lookup upper kContentLength es.reverse <;> simp [hlength]
    · by_cases hlength : upper h.1 = upper kContentLength <;>
        cases Store.lookup upper kContentLength es.reverse <;> simp [hlength]

/-! ## A header block -/

theorem scan_headerLines (p : Parser M D) (hstarted : p.start_line_parsed = true)
    (es : List Header) (hw : ∀ h ∈ es, Written h) (ha : ∀ h ∈ es, Accepted reserve h) (s : Bytes) :
    scanHeaders reserve parseStartLine p (headerLines es ++ kCRLF ++ s) =
      ((true, { applyHeaders p es with header_ended := true }), s, true) := by
  induction es generalizing p with
  | nil =>
    have hcut : cut kCRLF (kCRLF ++ s) = some ([], s) := isRecord_nil.cut_eq s
    unfold scanHeaders
    rw [headerLines, List.flatMap_nil, List.nil_append, scan_of_cut kCRLF_ne_nil _ hcut]
    simp [headerStep, applyHeaders]
  | cons h es ih =>
    have hline := hw h List.mem_cons_self
    have hcut : cut kCRLF (headerLines (h :: es) ++ kCRLF ++ s) =
        some (headerLine h, headerLines es ++ kCRLF ++ s) := by
      have := hline.record.cut_eq (headerLines es ++ kCRLF ++ s)
      simpa only [headerLines_eq, List.map_cons, List.flatMap_cons, List.append_assoc] using this
    have hne : headerLine h ≠ [] := by simp [headerLine, ascii]
    have hstep : headerStep reserve parseStartLine (true, p) (headerLine h) =
        ((true, p.applyHeader h), false) := by
      unfold headerStep
      simp only [if_neg hne, if_pos hstarted,
        parseHeaderLine_written reserve p hline (ha h List.mem_cons_self), Bool.not_true]
    unfold scanHeaders at ih ⊢
    rw [scan_of_cut kCRLF_ne_nil _ hcut, hstep, if_neg (by simp)]
    exact ih (p.applyHeader h) hstarted (fun h' hh' => hw h' (List.mem_cons_of_mem _ hh'))
      (fun h' hh' => ha h' (List.mem_cons_of_mem _ hh'))

/-- A start line, headers and an empty line. -/
def headText (start_line : Bytes) (es : List Header) : Bytes :=
  start_line ++ kCRLF ++ headerLines es ++ kCRLF

/-- The head of a message is read as it was written. -/
theorem scan_headText {p : Parser M D} (hstarted : p.start_line_parsed = false)
    {start_line : Bytes} (hrecord : IsRecord kCRLF start_line) (hne : start_line ≠ [])
    {message : M} (hmessage : parseStartLine start_line
      (IsMessage.withMessage p.message { p.base with start_line := start_line }) = some message)
    {es : List Header} (hw : ∀ h ∈ es, Written h) (ha : ∀ h ∈ es, Accepted reserve h) (s : Bytes) :
    scanHeaders reserve parseStartLine p (headText start_line es ++ s) =
      ((true, { applyHeaders { p with start_line_parsed := true, message := message } es with
        header_ended := true }), s, true) := by
  have hcut : cut kCRLF (headText start_line es ++ s) =
      some (start_line, headerLines es ++ kCRLF ++ s) := by
    have := hrecord.cut_eq (headerLines es ++ kCRLF ++ s)
    simpa only [headText, List.append_assoc] using this
  have hstep : headerStep reserve parseStartLine (true, p) start_line =
      ((true, { p with start_line_parsed := true, message := message }), false) := by
    unfold headerStep
    simp only [base] at hmessage
    simp only [if_neg hne, hstarted, Bool.false_eq_true, if_false, onMessage, base, hmessage]
  have hlines := scan_headerLines reserve parseStartLine
    { p with start_line_parsed := true, message := message } rfl es hw ha s
  unfold scanHeaders at hlines ⊢
  rw [scan_of_cut kCRLF_ne_nil _ hcut, hstep, if_neg (by simp)]
  exact hlines

end Parser

end FaceDetection.Webcc

import FaceDetection.Webcc.Reads
import FaceDetection.Webcc.RequestParser

/-!
# A request that comes in pieces

A connection hands to its parser whatever a read returns. Where the reads cut the text does not
matter, unless the request is chunked: the parser goes on from the bytes it keeps.
-/

open FaceDetection.Delimited FaceDetection.Pieces

namespace FaceDetection.Webcc.RequestParser

/-! ## Part headers, read again -/

def withNames (names : Bytes × Bytes) (part : FormPart) : FormPart :=
  { part with name := names.1, file_name := names.2 }

/-- A line sets the names, or leaves them. -/
theorem partHeaderStep_names (st : Bool × FormPart) (line : Bytes) :
    (∀ names, partHeaderStep (st.1, withNames names st.2) line = partHeaderStep st line) ∨
      (∀ names, partHeaderStep (st.1, withNames names st.2) line =
        (((partHeaderStep st line).1.1, withNames names st.2), (partHeaderStep st line).2)) := by
  unfold partHeaderStep
  by_cases hline : line = []
  · right
    intro names
    simp only [if_pos hline]
  · simp only [if_neg hline]
    cases split2 line (ch ':') with
    | none => exact Or.inr fun names => rfl
    | some header =>
      by_cases hkey : iequals header.1 kContentDisposition = true
      · simp only [if_pos hkey]
        cases contentDisposition header.2 with
        | none => exact Or.inr fun names => rfl
        | some found => exact Or.inl fun names => rfl
      · simp only [if_neg hkey]
        exact Or.inr fun names => trivial

theorem partHeaderStep_part (st : Bool × FormPart) (line : Bytes) :
    ∃ names, (partHeaderStep st line).1.2 = withNames names st.2 := by
  unfold partHeaderStep
  by_cases hline : line = []
  · simp only [if_pos hline]
    exact ⟨(st.2.name, st.2.file_name), rfl⟩
  · simp only [if_neg hline]
    cases split2 line (ch ':') with
    | none => exact ⟨(st.2.name, st.2.file_name), rfl⟩
    | some header =>
      simp only
      split_ifs
      · cases contentDisposition header.2 with
        | none => exact ⟨(st.2.name, st.2.file_name), rfl⟩
        | some found => exact ⟨found, rfl⟩
      · exact ⟨(st.2.name, st.2.file_name), rfl⟩

theorem withNames_self (part : FormPart) : withNames (part.name, part.file_name) part = part := rfl

theorem scan_names (st : Bool × FormPart) (s : Bytes) :
    (∀ names, scan kCRLF partHeaderStep (st.1, withNames names st.2) s =
        scan kCRLF partHeaderStep st s) ∨
      (∀ names, scan kCRLF partHeaderStep (st.1, withNames names st.2) s =
        (((scan kCRLF partHeaderStep st s).1.1, withNames names st.2),
          (scan kCRLF partHeaderStep st s).2)) := by
  induction st, s using scan_induction partHeaderStep kCRLF_ne_nil with
  | wait st s hcut =>
    right
    intro names
    rw [scan_of_cut_none kCRLF_ne_nil _ hcut, scan_of_cut_none kCRLF_ne_nil _ hcut]
  | stop st s a b hcut hstop =>
    simp only [scan_of_cut kCRLF_ne_nil _ hcut, hstop]
    rcases partHeaderStep_names st a with h | h
    · left
      intro names
      simp only [h, hstop]
    · right
      intro names
      simp only [h, hstop, if_true]
  | next st s a b hcut hstop ih =>
    simp only [scan_of_cut kCRLF_ne_nil _ hcut, hstop]
    rcases partHeaderStep_names st a with h | h
    · left
      intro names
      rw [h, hstop]
    · have hpart : (partHeaderStep st a).1.2 = st.2 := by
        have := h (st.2.name, st.2.file_name)
        rw [withNames_self] at this
        rw [this]
      simp only [h, hstop]
      rw [hpart] at ih
      simpa using ih

theorem scan_part (st : Bool × FormPart) (s : Bytes) :
    ∃ names, (scan kCRLF partHeaderStep st s).1.2 = withNames names st.2 := by
  have hstep : ∀ st' line, (∃ names, st'.2 = withNames names st.2) →
      ∃ names, (partHeaderStep st' line).1.2 = withNames names st.2 := by
    rintro st' line ⟨names, hnames⟩
    obtain ⟨names', hnames'⟩ := partHeaderStep_part st' line
    exact ⟨names', by rw [hnames', hnames]; rfl⟩
  have h := scan_spec partHeaderStep kCRLF_ne_nil
    (P := fun st' => ∃ names, st'.2 = withNames names st.2)
    (Q := fun st' => ∃ names, st'.2 = withNames names st.2)
    (fun st' line hst' _ => hstep st' line hst') (fun st' line hst' _ => hstep st' line hst')
    st s ⟨(st.2.name, st.2.file_name), rfl⟩
  cases hstop : (scan kCRLF partHeaderStep st s).2.2 with
  | false => exact h.1 hstop
  | true => exact h.2 hstop

/-- A scan of part headers that waited may start again from the part it left. -/
theorem rescan (part : FormPart) (s t : Bytes)
    (hwait : (scan kCRLF partHeaderStep (true, part) s).2.2 = false) :
    scan kCRLF partHeaderStep (true, (scan kCRLF partHeaderStep (true, part) s).1.2) (s ++ t) =
      scan kCRLF partHeaderStep (true, part) (s ++ t) := by
  obtain ⟨names, hnames⟩ := scan_part (true, part) s
  rcases scan_names (true, part) s with h | h
  · have hsame := h names
    simp only at hsame
    rw [hnames, scan_append_wait kCRLF_ne_nil _ s t (by rw [hsame]; exact hwait),
      scan_append_wait kCRLF_ne_nil _ s t hwait, hsame]
  · have hpart : (scan kCRLF partHeaderStep (true, part) s).1.2 = part := by
      have := h (part.name, part.file_name)
      simp only [withNames_self] at this
      rw [this]
    rw [hpart]

/-! ## One round on more data -/

/-- The parser with more pending data. -/
def append (t : Bytes) (p : RequestParser) : RequestParser := p.withPending (p.pending_data ++ t)

/-- What a round says when more data is there: a round that goes on, fails or ends the form does the
same, and one that waits can be made again. -/
def RoundResumes (t : Bytes) (p : RequestParser) : Round RequestParser (Bool × RequestParser) → Prop
  | .again q => multipartRound (append t p) = .again (append t q)
  | .leave r =>
    if r.1 = true ∧ r.2.derived.step ≠ .kEnded then
      multipartRound (append t r.2) = multipartRound (append t p)
    else multipartRound (append t p) = .leave (r.1, append t r.2)

theorem getNextBoundaryLine_append {boundary s : Bytes} {b : BoundaryLine}
    (h : getNextBoundaryLine boundary s = some b) (t : Bytes) :
    getNextBoundaryLine boundary (s ++ t) = some b := by
  unfold getNextBoundaryLine at h ⊢
  simp only at h ⊢
  split_ifs at h with hstop
  rw [scan_append_stop kCRLF_ne_nil _ s t hstop]
  exact h

/-- The boundary line lies in the text. -/
theorem getNextBoundaryLine_spec {boundary s : Bytes} {b : BoundaryLine}
    (h : getNextBoundaryLine boundary s = some b) :
    ∃ u line v, s = u ++ line ++ kCRLF ++ v ∧ b.off = u.length ∧ b.count = line.length ∧
      (isBoundary boundary line).1 = true := by
  unfold getNextBoundaryLine at h
  simp only at h
  split_ifs at h with hstop
  cases h
  have hscan := scan_consumed (boundaryStep boundary) kCRLF_ne_nil
    (P := fun st u => st.off = u.length)
    (Q := fun st u line => st.off = u.length ∧ st.count = line.length ∧
      (isBoundary boundary line).1 = true)
    (by
      intro st u line hst hgo
      unfold boundaryStep at hgo ⊢
      simp only at hgo ⊢
      split_ifs at hgo ⊢ with hline hfound
      · simp [hst, hline, kCRLF]
      · simp [hst, kCRLF, Nat.add_assoc])
    (by
      intro st u line hst hgo
      unfold boundaryStep at hgo ⊢
      simp only at hgo ⊢
      split_ifs at hgo ⊢ with hline hfound
      exact ⟨hst, rfl, hfound⟩)
    { off := 0, count := 0, ended := false } [] s rfl
  obtain ⟨u, line, hs, hQ⟩ := hscan.2 hstop
  exact ⟨u, line, _, hs, by simpa using hQ⟩

theorem append_ne_nil {p : RequestParser} (h : p.pending_data ≠ []) (t : Bytes) :
    (append t p).pending_data ≠ [] := by
  simp [append, h]

theorem round_start_eq {p : RequestParser} (hpending : p.pending_data ≠ [])
    (hstep : p.derived.step = .kStart) :
    multipartRound p =
      match cut kCRLF p.pending_data with
      | none => .leave (true, p)
      | some c =>
        if (isBoundary (boundary p) c.1).1 then
          .again (setForm (p.withPending c.2) .kBoundaryParsed p.derived.part)
        else .leave (false, p.withPending c.2) := by
  unfold multipartRound
  rw [if_neg hpending, hstep]
  rfl

theorem round_start {p : RequestParser} (hpending : p.pending_data ≠ [])
    (hstep : p.derived.step = .kStart) (t : Bytes) : RoundResumes t p (multipartRound p) := by
  have hround := round_start_eq (append_ne_nil hpending t) hstep
  rw [round_start_eq hpending hstep]
  cases hcut : cut kCRLF p.pending_data with
  | none => simp [RoundResumes, hstep]
  | some c =>
    have hcut' : cut kCRLF (append t p).pending_data = some (c.1, c.2 ++ t) := cut_append hcut t
    rw [hcut'] at hround
    simp only
    by_cases hboundary : (isBoundary (boundary p) c.1).1 = true
    · rw [if_pos hboundary, RoundResumes, hround]
      exact if_pos hboundary
    · rw [if_neg hboundary, RoundResumes, if_neg (by simp), hround]
      exact if_neg hboundary

/-- A round among the part headers, from what their scan says. -/
def headersRound (p : RequestParser) (r : (Bool × FormPart) × Bytes × Bool) :
    Round RequestParser (Bool × RequestParser) :=
  if r.2.2 then
    if r.1.1 then .again (setForm (p.withPending r.2.1) .kHeadersParsed (some r.1.2))
    else .leave (false, setForm p .kBoundaryParsed (some r.1.2))
  else .leave (true, setForm p .kBoundaryParsed (some r.1.2))

theorem round_headers_eq {p : RequestParser} (hpending : p.pending_data ≠ [])
    (hstep : p.derived.step = .kBoundaryParsed) :
    multipartRound p = headersRound p
      (scan kCRLF partHeaderStep (true, p.derived.part.getD FormPart.new) p.pending_data) := by
  unfold multipartRound
  rw [if_neg hpending, hstep]
  rfl

theorem round_headers {p : RequestParser} (hpending : p.pending_data ≠ [])
    (hstep : p.derived.step = .kBoundaryParsed) (t : Bytes) :
    RoundResumes t p (multipartRound p) := by
  have hround : multipartRound (append t p) = headersRound (append t p)
      (scan kCRLF partHeaderStep (true, p.derived.part.getD FormPart.new) (p.pending_data ++ t)) :=
    round_headers_eq (append_ne_nil hpending t) hstep
  rw [round_headers_eq hpending hstep]
  cases hstop : (scan kCRLF partHeaderStep (true, p.derived.part.getD FormPart.new)
      p.pending_data).2.2 with
  | false =>
    have hagain := rescan (p.derived.part.getD FormPart.new) p.pending_data t hstop
    unfold headersRound
    rw [if_neg (by simp [hstop]), RoundResumes, if_pos ⟨rfl, by simp [setForm]⟩, hround, ← hagain]
    exact round_headers_eq (append_ne_nil hpending t) rfl
  | true =>
    rw [scan_append_stop kCRLF_ne_nil _ _ t hstop] at hround
    unfold headersRound at hround ⊢
    rw [if_pos rfl] at hround
    rw [if_pos hstop]
    split_ifs at hround ⊢ with hok
    · rw [RoundResumes, hround]
      rfl
    · rw [RoundResumes, if_neg (by simp), hround]
      rfl

theorem round_data_eq {p : RequestParser} (hpending : p.pending_data ≠ [])
    (hstep : p.derived.step = .kHeadersParsed) :
    multipartRound p =
      match getNextBoundaryLine (boundary p) p.pending_data with
      | none => .leave (true, p)
      | some b =>
        if 2 < b.off then
          let part := p.derived.part.getD FormPart.new
          let part := { part with data := part.data ++ p.pending_data.take (b.off - 2) }
          let p := { p.withPending (p.pending_data.drop (b.off + b.count + 2)) with
            message := { p.message with form_parts := p.message.form_parts ++ [part] } }
          if b.ended then .leave (true, setForm p .kEnded none)
          else .again (setForm p .kBoundaryParsed none)
        else .leave (false, p) := by
  unfold multipartRound
  rw [if_neg hpending, hstep]
  rfl

theorem round_data {p : RequestParser} (hpending : p.pending_data ≠ [])
    (hstep : p.derived.step = .kHeadersParsed) (t : Bytes) :
    RoundResumes t p (multipartRound p) := by
  have hround := round_data_eq (append_ne_nil hpending t) hstep
  rw [round_data_eq hpending hstep]
  cases hline : getNextBoundaryLine (boundary p) p.pending_data with
  | none => simp [RoundResumes, hstep]
  | some b =>
    have hline' : getNextBoundaryLine (boundary (append t p)) (append t p).pending_data = some b :=
      getNextBoundaryLine_append hline t
    obtain ⟨u, line, v, hsplit, hoff, hcount, -⟩ := getNextBoundaryLine_spec hline
    have hlen : b.off + b.count + 2 ≤ p.pending_data.length := by
      rw [hsplit]
      simp [hoff, hcount, kCRLF]
      omega
    have htake : (append t p).pending_data.take (b.off - 2) = p.pending_data.take (b.off - 2) :=
      List.take_append_of_le_length (by omega)
    have hdrop : (append t p).pending_data.drop (b.off + b.count + 2) =
        p.pending_data.drop (b.off + b.count + 2) ++ t :=
      List.drop_append_of_le_length hlen
    rw [hline'] at hround
    simp only [htake, hdrop] at hround ⊢
    split_ifs at hround ⊢ with hoff' hended
    · rw [RoundResumes, if_neg (by simp [setForm]), hround]
      rfl
    · rw [RoundResumes, hround]
      rfl
    · rw [RoundResumes, if_neg (by simp), hround]

/-! ## The form on more data -/

theorem round_resumes {p : RequestParser} (hstep : p.derived.step ≠ .kEnded) (t : Bytes) :
    RoundResumes t p (multipartRound p) := by
  by_cases hpending : p.pending_data = []
  · have hround : multipartRound p = .leave (true, p) := by
      unfold multipartRound
      rw [if_pos hpending]
    rw [hround, RoundResumes, if_pos ⟨rfl, hstep⟩]
  · cases hcase : p.derived.step with
    | kStart => exact round_start hpending hcase t
    | kBoundaryParsed => exact round_headers hpending hcase t
    | kHeadersParsed => exact round_data hpending hcase t
    | kEnded => exact absurd hcase hstep

/-- The form changes nothing but the pending data, the step, and the parts. -/
def FormOnly (p q : RequestParser) : Prop :=
  ∃ pending_data derived form_parts, q = { p with
    pending_data := pending_data
    derived := derived
    message := { p.message with form_parts := form_parts } }

theorem FormOnly.trans {p q r : RequestParser} (h : FormOnly p q) (h' : FormOnly q r) :
    FormOnly p r := by
  obtain ⟨_, _, _, rfl⟩ := h
  obtain ⟨s, d, parts, rfl⟩ := h'
  exact ⟨s, d, parts, rfl⟩

/-- A round that goes on has taken a line, and is at a step that is not the last. -/
def RoundSpec (p : RequestParser) : Round RequestParser (Bool × RequestParser) → Prop
  | .again q =>
    q.derived.step ≠ .kEnded ∧ q.pending_data.length < p.pending_data.length ∧ FormOnly p q
  | .leave r => FormOnly p r.2

theorem round_spec {p : RequestParser} (hstep : p.derived.step ≠ .kEnded) :
    RoundSpec p (multipartRound p) := by
  by_cases hpending : p.pending_data = []
  · unfold multipartRound
    rw [if_pos hpending]
    exact ⟨_, _, _, rfl⟩
  cases hcase : p.derived.step with
  | kStart =>
    rw [round_start_eq hpending hcase]
    cases hcut : cut kCRLF p.pending_data with
    | none => exact ⟨_, _, _, rfl⟩
    | some c =>
      have hlen := cut_length hcut
      simp only
      split_ifs
      · refine ⟨by simp [setForm], ?_, _, _, _, rfl⟩
        simp only [setForm, Parser.withPending, kCRLF, List.length_cons] at hlen ⊢
        omega
      · exact ⟨_, _, _, rfl⟩
  | kBoundaryParsed =>
    rw [round_headers_eq hpending hcase]
    have hconsumed := (scan_consumed partHeaderStep kCRLF_ne_nil (P := fun _ _ => True)
      (Q := fun _ _ _ => True) (fun _ _ _ _ _ => trivial) (fun _ _ _ _ _ => trivial)
      (true, p.derived.part.getD FormPart.new) [] p.pending_data trivial).2
    unfold headersRound
    split_ifs with hstop
    · obtain ⟨u, line, hsplit, -⟩ := hconsumed hstop
      refine ⟨by simp [setForm], ?_, _, _, _, rfl⟩
      conv_rhs => rw [hsplit]
      simp only [setForm, Parser.withPending, kCRLF, List.length_append, List.length_cons]
      omega
    all_goals exact ⟨_, _, _, rfl⟩
  | kHeadersParsed =>
    rw [round_data_eq hpending hcase]
    cases getNextBoundaryLine (boundary p) p.pending_data with
    | none => exact ⟨_, _, _, rfl⟩
    | some b =>
      have hpos := List.length_pos_of_ne_nil hpending
      simp only
      split_ifs
      · exact ⟨_, _, _, rfl⟩
      · refine ⟨by simp [setForm], ?_, _, _, _, rfl⟩
        simp only [setForm, Parser.withPending, List.length_drop]
        omega
      · exact ⟨_, _, _, rfl⟩
  | kEnded => exact absurd hcase hstep

theorem round_again {p q : RequestParser} (hstep : p.derived.step ≠ .kEnded)
    (h : multipartRound p = .again q) :
    q.derived.step ≠ .kEnded ∧ q.pending_data.length < p.pending_data.length ∧ FormOnly p q := by
  have hspec := round_spec hstep
  rwa [h] at hspec

theorem round_leave {p : RequestParser} {r : Bool × RequestParser}
    (hstep : p.derived.step ≠ .kEnded) (h : multipartRound p = .leave r) : FormOnly p r.2 := by
  have hspec := round_spec hstep
  rwa [h] at hspec

theorem leaves_of_step {p : RequestParser} (hstep : p.derived.step ≠ .kEnded) :
    ∃ r, rounds multipartRound (p.pending_data.length + 1) p = some r ∧ Leaves multipartRound p r ∧
      FormOnly p r.2 := by
  obtain ⟨r, hr⟩ := Leaves.rounds_of_measure (I := fun p => p.derived.step ≠ .kEnded)
    (fun p : RequestParser => p.pending_data.length)
    (fun p q hp hagain => ⟨(round_again hp hagain).1, (round_again hp hagain).2.1⟩)
    (p.pending_data.length + 1) hstep (Nat.lt_succ_self _)
  have hleaves := Leaves.of_rounds hr
  refine ⟨r, hr, hleaves, ?_⟩
  exact hleaves.result (I := fun q => q.derived.step ≠ .kEnded ∧ FormOnly p q)
    (Q := fun r => FormOnly p r.2) ⟨hstep, _, _, _, rfl⟩
    (fun q q' hq hagain =>
      ⟨(round_again hq.1 hagain).1, hq.2.trans (round_again hq.1 hagain).2.2⟩)
    (fun q r hq hleave => hq.2.trans (round_leave hq.1 hleave))

/-- The run lemma: a form goes on from where it waited, and what ended it ends it on more data. -/
theorem leaves_append {p : RequestParser} {r : Bool × RequestParser}
    (h : Leaves multipartRound p r) (hstep : p.derived.step ≠ .kEnded) (t : Bytes) :
    if r.1 = true ∧ r.2.derived.step ≠ .kEnded then
      ∀ r', Leaves multipartRound (append t r.2) r' ↔ Leaves multipartRound (append t p) r'
    else Leaves multipartRound (append t p) (r.1, append t r.2) := by
  induction h with
  | @leave p r hleave =>
    have hresumes := round_resumes hstep t
    rw [hleave, RoundResumes] at hresumes
    split_ifs at hresumes ⊢
    · intro r'
      exact Leaves.congr hresumes
    · exact .leave hresumes
  | @again p q r hagain _ ih =>
    have hresumes := round_resumes hstep t
    rw [hagain, RoundResumes] at hresumes
    have hq := ih (round_again hstep hagain).1
    split_ifs at hq ⊢
    · intro r'
      rw [hq, Leaves.again_iff hresumes]
    · exact .again hresumes hq

/-! ## The content on more data -/

/-- The content of a request that is not chunked, from the text that is there. -/
def contentOf (p : RequestParser) (s : Bytes) : Outcome RequestParser (Failure Request FormState) :=
  Parser.outcome (parseContent (p.withPending s) [])

theorem parseContent_plain {p : RequestParser} (hplain : p.chunked = false) (data : Bytes) :
    parseContent p data =
      if p.message.content_type.multipart then parseMultipartContent p data
      else .ok (p.parseFixedContent data) := by
  unfold parseContent
  rw [if_neg (by simp [hplain])]

theorem contentOf_fixed {p : RequestParser} (hplain : p.chunked = false)
    (hfixed : p.message.content_type.multipart = false) (s : Bytes) :
    contentOf p s =
      if p.content_length_parsed = false then .done (p.withPending s).finish
      else if p.content_length = kInvalidLength then
        .fail (.rejected p.message p.derived p.chunked)
      else if p.content_length ≤ (p.content ++ s).length then
        .done { p with content := p.content ++ s, pending_data := [] }.finish
      else Parser.outcome (.ok (true, { p with content := p.content ++ s, pending_data := [] })) := by
  unfold contentOf parseContent
  rw [if_neg (by simp [hplain]), if_neg (by simp [hfixed])]
  unfold Parser.parseFixedContent
  simp only [Parser.withPending, List.append_nil]
  split_ifs
  · exact Parser.outcome_finish _
  · rfl
  · exact Parser.outcome_finish _
  · rfl

theorem contentOf_form {p : RequestParser} (hplain : p.chunked = false)
    (hform : p.message.content_type.multipart = true) (hstep : p.derived.step ≠ .kEnded)
    (s : Bytes) :
    ∃ r, Leaves multipartRound (p.withPending s) r ∧ FormOnly p r.2 ∧
      contentOf p s =
        if p.content_length_parsed = false ∨ p.content_length = kInvalidLength then
          .fail (.rejected p.message p.derived p.chunked)
        else if r.1 = true ∧ r.2.derived.step = .kEnded then .done r.2.finish
        else Parser.outcome (.ok r) := by
  obtain ⟨r, hr, hleaves, honly⟩ := leaves_of_step (p := p.withPending s) hstep
  refine ⟨r, hleaves, ?_, ?_⟩
  · obtain ⟨t, d, parts, h⟩ := honly
    exact ⟨t, d, parts, h⟩
  · have hparse : parseMultipartContent (p.withPending s) [] =
        if p.content_length_parsed = false ∨ p.content_length = kInvalidLength then
          .ok (false, p.withPending s)
        else .ok (if r.1 = true ∧ r.2.derived.step = .kEnded then (true, r.2.finish) else r) := by
      unfold parseMultipartContent
      simp only [Parser.withPending, List.append_nil] at hr ⊢
      rw [hr]
      split_ifs with hlength hended
      · rfl
      · simp only [if_pos hended]
        rfl
      · simp only [if_neg hended]
        rfl
    unfold contentOf parseContent
    rw [if_neg (by simp [hplain]), if_pos (by simpa using hform), hparse]
    split_ifs
    · rfl
    · exact Parser.outcome_finish _
    · rfl

/-- What holds of a parser that waits for more: between requests it would not. -/
structure Waiting (p : RequestParser) : Prop where
  finished : p.finished = false
  step : p.derived.step ≠ .kEnded
  content : p.header_ended = true → p.chunked = false ∧ p.content_length_parsed = true

theorem contentOf_plain {p : RequestParser} (hplain : p.chunked = false)
    (hstep : p.derived.step ≠ .kEnded) (s : Bytes) : Parser.Plain (contentOf p s) := by
  cases hform : p.message.content_type.multipart with
  | false =>
    rw [contentOf_fixed hplain hform]
    split_ifs
    · exact (Parser.finish_chunked _).trans hplain
    · exact hplain
    · exact (Parser.finish_chunked _).trans hplain
    · unfold Parser.outcome
      simp only [if_true]
      split <;> exact hplain
  | true =>
    obtain ⟨r, -, ⟨t, d, parts, honly⟩, hcontent⟩ := contentOf_form hplain hform hstep s
    have hr : r.2.chunked = false := by rw [honly]; exact hplain
    rw [hcontent]
    split_ifs
    · exact hplain
    · exact (Parser.finish_chunked _).trans hr
    · unfold Parser.outcome
      simp only
      split_ifs <;> exact hr

/-- With a Content-Length the data of a read is handled like pending data. -/
theorem outcome_parseContent {p : RequestParser} (hplain : p.chunked = false)
    (hlength : p.content_length_parsed = true) (data : Bytes) :
    Parser.outcome (parseContent p data) = contentOf p (p.pending_data ++ data) := by
  have hplain' : (p.withPending (p.pending_data ++ data)).chunked = false := hplain
  unfold contentOf
  rw [parseContent_plain hplain, parseContent_plain hplain']
  by_cases hform : p.message.content_type.multipart = true
  · rw [if_pos hform, if_pos (by simpa using hform)]
    unfold parseMultipartContent
    simp only [Parser.withPending, List.append_nil]
  · rw [if_neg hform, if_neg (by simpa using hform)]
    unfold Parser.parseFixedContent
    simp only [Parser.withPending, hlength, Bool.true_eq_false, if_false, List.append_nil,
      List.append_assoc]
    split_ifs <;> rfl

/-- A content that waits goes on from where it is. -/
theorem contentOf_more {p q : RequestParser} (hplain : p.chunked = false)
    (hstep : p.derived.step ≠ .kEnded) (hfinished : p.finished = false) {s : Bytes}
    (h : contentOf p s = .more q) (t : Bytes) :
    Waiting q ∧ q.header_ended = p.header_ended ∧
      contentOf p (s ++ t) = Parser.outcome (parseContent q t) := by
  cases hform : p.message.content_type.multipart with
  | false =>
    rw [contentOf_fixed hplain hform] at h
    split_ifs at h with hlength hinvalid hfull
    rw [Parser.outcome_more (by exact hfinished)] at h
    cases h
    refine ⟨⟨hfinished, hstep, fun _ => ⟨hplain, by simpa using hlength⟩⟩, rfl, ?_⟩
    rw [outcome_parseContent (by exact hplain) (by simpa using hlength),
      contentOf_fixed hplain hform, contentOf_fixed (by exact hplain) (by exact hform)]
    simp only [List.nil_append, List.append_assoc, if_neg hlength]
  | true =>
    obtain ⟨r, hleaves, ⟨u, d, parts, honly⟩, hcontent⟩ := contentOf_form hplain hform hstep s
    obtain ⟨r', hleaves', -, hcontent'⟩ := contentOf_form hplain hform hstep (s ++ t)
    rw [hcontent] at h
    split_ifs at h with hlength hended
    have hr : r.2.finished = false := by rw [honly]; exact hfinished
    have hok : r.1 = true := by
      by_contra hbad
      simp [Parser.outcome, hbad] at h
    have hq : q = r.2 := by
      simp only [Parser.outcome, hok, hr, if_true, Bool.false_eq_true, if_false] at h
      cases h
      rfl
    have hwait : r.2.derived.step ≠ .kEnded := fun hend => hended ⟨hok, hend⟩
    have hgoes := leaves_append hleaves hstep t
    rw [if_pos ⟨hok, hwait⟩] at hgoes
    have hq_length : ¬ (q.content_length_parsed = false ∨ q.content_length = kInvalidLength) := by
      rw [hq, honly]
      exact hlength
    have hq_parsed : q.content_length_parsed = true := by
      rw [not_or] at hq_length
      simpa using hq_length.1
    have hq_plain : q.chunked = false := by rw [hq, honly]; exact hplain
    have hq_form : q.message.content_type.multipart = true := by rw [hq, honly]; exact hform
    refine ⟨⟨hq ▸ hr, hq ▸ hwait, fun _ => ⟨hq_plain, hq_parsed⟩⟩, by rw [hq, honly], ?_⟩
    obtain ⟨r'', hleaves'', -, hcontent''⟩ :=
      contentOf_form hq_plain hq_form (hq ▸ hwait) (q.pending_data ++ t)
    rw [outcome_parseContent hq_plain hq_parsed, hcontent', hcontent'']
    have hsame : r' = r'' := by
      apply Leaves.unique hleaves'
      rw [hq] at hleaves''
      exact (hgoes r'').mp hleaves''
    rw [hsame, if_neg hlength, if_neg hq_length]

theorem contentOf_done {p q : RequestParser} (hplain : p.chunked = false)
    (hstep : p.derived.step ≠ .kEnded) (hfinished : p.finished = false) {s : Bytes}
    (h : contentOf p s = .done q) (t : Bytes) : ∃ q', contentOf p (s ++ t) = .done q' := by
  cases hform : p.message.content_type.multipart with
  | false =>
    rw [contentOf_fixed hplain hform] at h ⊢
    split_ifs at h with hlength hinvalid hfull
    · exact ⟨_, if_pos hlength⟩
    · rw [if_neg hlength, if_neg hinvalid, if_pos]
      · exact ⟨_, rfl⟩
      · simp only [List.length_append] at hfull ⊢
        omega
    · rw [Parser.outcome_more (by exact hfinished)] at h
      cases h
  | true =>
    obtain ⟨r, hleaves, ⟨u, d, parts, honly⟩, hcontent⟩ := contentOf_form hplain hform hstep s
    obtain ⟨r', hleaves', -, hcontent'⟩ := contentOf_form hplain hform hstep (s ++ t)
    have hr : r.2.finished = false := by rw [honly]; exact hfinished
    rw [hcontent] at h
    split_ifs at h with hlength hended
    · have hends := leaves_append hleaves hstep t
      rw [if_neg (by simp [hended])] at hends
      rw [hcontent', if_neg hlength, Leaves.unique hleaves' hends, if_pos]
      · exact ⟨_, rfl⟩
      · exact hended
    · simp [Parser.outcome, hr] at h
      split_ifs at h

theorem contentOf_fail {p : RequestParser} {e : Failure Request FormState}
    (hplain : p.chunked = false) (hstep : p.derived.step ≠ .kEnded)
    (hfinished : p.finished = false) {s : Bytes} (h : contentOf p s = .fail e) (t : Bytes) :
    contentOf p (s ++ t) = .fail e := by
  cases hform : p.message.content_type.multipart with
  | false =>
    rw [contentOf_fixed hplain hform] at h ⊢
    split_ifs at h with hlength hinvalid hfull
    · rw [if_neg hlength, if_pos hinvalid, h]
    · rw [Parser.outcome_more (by exact hfinished)] at h
      cases h
  | true =>
    obtain ⟨r, hleaves, ⟨u, d, parts, honly⟩, hcontent⟩ := contentOf_form hplain hform hstep s
    obtain ⟨r', hleaves', -, hcontent'⟩ := contentOf_form hplain hform hstep (s ++ t)
    have hr : r.2.finished = false := by rw [honly]; exact hfinished
    rw [hcontent] at h
    split_ifs at h with hlength hended
    · rw [hcontent', if_pos hlength, h]
    · have hbad : r.1 = false := by
        cases hok : r.1 with
        | false => rfl
        | true => simp [Parser.outcome, hr, hok] at h
      have hends := leaves_append hleaves hstep t
      rw [if_neg (by simp [hbad])] at hends
      rw [hcontent', if_neg hlength, Leaves.unique hleaves' hends]
      simpa [Parser.outcome, hbad, append] using h

/-! ## Reads -/

/-- A read of a connection, and what `OnRead` makes of it. -/
def read (reserve : Nat → Bool) (p : RequestParser) (data : Bytes) :
    Outcome RequestParser (Failure Request FormState) :=
  Parser.outcome (parse reserve p data)

variable (reserve : Nat → Bool)

/-- The loop of `ParseHeaders` of a request. -/
abbrev headers (p : RequestParser) (s : Bytes) : (Bool × RequestParser) × Bytes × Bool :=
  Parser.scanHeaders reserve parseStartLine p s

theorem read_headers {p : RequestParser} (hp : Waiting p) (hheaders : p.header_ended = false)
    (data : Bytes) :
    read reserve p data =
      let r := headers reserve p (p.pending_data ++ data)
      if r.2.2 = false then .more (r.1.2.withPending r.2.1)
      else if r.1.1 = false then .fail (.rejected r.1.2.message r.1.2.derived r.1.2.chunked)
      else contentOf r.1.2 r.2.1 :=
  Parser.readWith_headers reserve parseStartLine parseContent hp.finished hheaders data

theorem read_content {p : RequestParser} (hp : Waiting p) (hheaders : p.header_ended = true)
    (data : Bytes) : read reserve p data = contentOf p (p.pending_data ++ data) := by
  obtain ⟨hplain, hlength⟩ := hp.content hheaders
  rw [← outcome_parseContent hplain hlength]
  unfold read parse Parser.parse
  rw [if_pos hheaders]

/-- Whether the headers have announced chunks so far is what counts. -/
theorem read_plain_iff {p : RequestParser} (hp : Waiting p) (hheaders : p.header_ended = false)
    (data : Bytes) :
    Parser.Plain (read reserve p data) ↔
      (headers reserve p (p.pending_data ++ data)).1.2.chunked = false := by
  have honly := Parser.scanHeaders_only reserve parseStartLine p (p.pending_data ++ data)
  rw [read_headers reserve hp hheaders]
  simp only
  split_ifs
  · rfl
  · rfl
  · cases hchunked : (headers reserve p (p.pending_data ++ data)).1.2.chunked with
    | false =>
      have hstep : (headers reserve p (p.pending_data ++ data)).1.2.derived.step ≠ .kEnded := by
        rw [honly.derived]
        exact hp.step
      exact iff_of_true (contentOf_plain hchunked hstep _) rfl
    | true =>
      apply iff_of_false _ (by simp)
      unfold contentOf parseContent
      rw [if_pos (by exact hchunked)]
      exact Parser.not_plain_of_chunked (by exact hchunked) []

/-- While the headers last, the parser waits with the rest of the text. -/
theorem read_append_wait {p : RequestParser} (hp : Waiting p) (hheaders : p.header_ended = false)
    (a b : Bytes) (hwait : (headers reserve p (p.pending_data ++ a)).2.2 = false) :
    let r := headers reserve p (p.pending_data ++ a)
    Waiting (r.1.2.withPending r.2.1) ∧
      read reserve p (a ++ b) = read reserve (r.1.2.withPending r.2.1) b := by
  intro r
  have honly := Parser.scanHeaders_only reserve parseStartLine p (p.pending_data ++ a)
  have hended : r.1.2.header_ended = false :=
    ((Parser.scanHeaders_spec reserve parseStartLine hheaders _).1 hwait).2
  have hr : Waiting (r.1.2.withPending r.2.1) := by
    refine ⟨honly.finished.trans hp.finished, ?_, fun h => ?_⟩
    · rw [Parser.withPending_derived, honly.derived]
      exact hp.step
    · rw [Parser.withPending_header_ended, hended] at h
      cases h
  exact ⟨hr, Parser.readWith_append_wait reserve parseStartLine parseContent hp.finished hheaders a b
    hwait⟩

/-- Where the headers end or a line is wrong, more text comes to what is left. -/
theorem read_append_stop {p : RequestParser} (hp : Waiting p) (hheaders : p.header_ended = false)
    (a b : Bytes) (hstop : (headers reserve p (p.pending_data ++ a)).2.2 = true) :
    let r := headers reserve p (p.pending_data ++ a)
    read reserve p (a ++ b) =
      if r.1.1 = false then .fail (.rejected r.1.2.message r.1.2.derived r.1.2.chunked)
      else contentOf r.1.2 (r.2.1 ++ b) := by
  intro r
  rw [read_headers reserve hp hheaders, ← List.append_assoc]
  simp only [headers]
  rw [Parser.scanHeaders_append_stop reserve parseStartLine hstop]
  rfl

/-- The parser goes on from what it keeps. -/
theorem resumes : Resumes (read reserve) Waiting Parser.Plain where
  more := by
    intro p a b q hp hread hplain
    cases hheaders : p.header_ended with
    | true =>
      rw [read_content reserve hp hheaders] at hread
      obtain ⟨hq, hended, hmore⟩ :=
        contentOf_more (hp.content hheaders).1 hp.step hp.finished hread b
      refine ⟨hq, ?_⟩
      rw [read_content reserve hp hheaders, ← List.append_assoc, hmore]
      unfold read parse Parser.parse
      rw [if_pos (hended.trans hheaders)]
    | false =>
      have hr_plain : (headers reserve p (p.pending_data ++ a)).1.2.chunked = false := by
        rw [← read_plain_iff reserve hp hheaders, hread]
        exact hplain
      have honly := Parser.scanHeaders_only reserve parseStartLine p (p.pending_data ++ a)
      rw [read_headers reserve hp hheaders] at hread
      cases hstop : (headers reserve p (p.pending_data ++ a)).2.2 with
      | false =>
        obtain ⟨hr, happend⟩ := read_append_wait reserve hp hheaders a b hstop
        simp only [hstop, if_true] at hread
        cases hread
        exact ⟨hr, happend⟩
      | true =>
        have hended := (Parser.scanHeaders_spec reserve parseStartLine hheaders _).2 hstop
        rw [read_append_stop reserve hp hheaders a b hstop]
        simp only [hstop, Bool.true_eq_false, if_false] at hread
        split_ifs at hread ⊢ with hok
        obtain ⟨hq, hq_ended, hmore⟩ := contentOf_more hr_plain (by rw [honly.derived]; exact hp.step)
          (honly.finished.trans hp.finished) hread b
        refine ⟨hq, ?_⟩
        rw [hmore]
        unfold read parse Parser.parse
        rw [if_pos]
        rw [hq_ended, hended]
        simpa using hok
  done := by
    intro p a b q hp hread hplain
    cases hheaders : p.header_ended with
    | true =>
      rw [read_content reserve hp hheaders] at hread ⊢
      rw [← List.append_assoc]
      exact contentOf_done (hp.content hheaders).1 hp.step hp.finished hread b
    | false =>
      have hr_plain : (headers reserve p (p.pending_data ++ a)).1.2.chunked = false := by
        rw [← read_plain_iff reserve hp hheaders, hread]
        exact hplain
      have honly := Parser.scanHeaders_only reserve parseStartLine p (p.pending_data ++ a)
      rw [read_headers reserve hp hheaders] at hread
      simp only at hread
      split_ifs at hread with hwait hok
      rw [read_append_stop reserve hp hheaders a b (by simpa using hwait)]
      simp only [if_neg hok]
      exact contentOf_done hr_plain (by rw [honly.derived]; exact hp.step)
        (honly.finished.trans hp.finished) hread b
  fail := by
    intro p a b e hp hread hplain
    cases hheaders : p.header_ended with
    | true =>
      rw [read_content reserve hp hheaders] at hread ⊢
      rw [← List.append_assoc]
      exact contentOf_fail (hp.content hheaders).1 hp.step hp.finished hread b
    | false =>
      have hr_plain : (headers reserve p (p.pending_data ++ a)).1.2.chunked = false := by
        rw [← read_plain_iff reserve hp hheaders, hread]
        exact hplain
      have honly := Parser.scanHeaders_only reserve parseStartLine p (p.pending_data ++ a)
      rw [read_headers reserve hp hheaders] at hread
      simp only at hread
      split_ifs at hread with hwait hok
      · rw [read_append_stop reserve hp hheaders a b (by simpa using hwait)]
        simp only [if_pos hok]
        exact hread
      · rw [read_append_stop reserve hp hheaders a b (by simpa using hwait)]
        simp only [if_neg hok]
        exact contentOf_fail hr_plain (by rw [honly.derived]; exact hp.step)
          (honly.finished.trans hp.finished) hread b
  plain := by
    intro p a b hp hplain
    cases hheaders : p.header_ended with
    | true =>
      rw [read_content reserve hp hheaders]
      exact contentOf_plain (hp.content hheaders).1 hp.step _
    | false =>
      rw [read_plain_iff reserve hp hheaders] at hplain ⊢
      rw [← List.append_assoc] at hplain
      cases hstop : (headers reserve p (p.pending_data ++ a)).2.2 with
      | false =>
        rw [headers, Parser.scanHeaders_append_wait reserve parseStartLine hheaders hstop] at hplain
        by_contra hchunked
        have honly := Parser.scanHeaders_only reserve parseStartLine
          (headers reserve p (p.pending_data ++ a)).1.2
          ((headers reserve p (p.pending_data ++ a)).2.1 ++ b)
        have hstays := honly.chunked (by simpa using hchunked)
        rw [hplain] at hstays
        cases hstays
      | true =>
        rw [headers, Parser.scanHeaders_append_stop reserve parseStartLine hstop] at hplain
        exact hplain

/-! ## All reads of a request -/

/-- The parser that a connection starts a request with, when the last form did not end in it. -/
def fresh (derived : FormState) : RequestParser := Parser.init Request.new derived

theorem start_step : FormState.start.step ≠ .kEnded := by decide

theorem waiting_fresh {derived : FormState} (h : derived.step ≠ .kEnded) :
    Waiting (fresh derived) :=
  ⟨rfl, h, fun hended => Bool.noConfusion hended⟩

theorem read_fresh_nil (derived : FormState) :
    read reserve (fresh derived) [] = .more (fresh derived) := rfl

/-- The reads of a request one after the other. -/
def readAll (p : RequestParser) (reads : List Bytes) :
    Outcome RequestParser (Failure Request FormState) × List Bytes :=
  feedAll (read reserve) p reads

/-- Of reads that do not announce chunks, the parser makes what it makes of their text: whether it
waits, finishes or fails does not depend on where they are cut, and it stops at the first read that
lets it. -/
theorem readAll_eq_read (derived : FormState) (hstep : derived.step ≠ .kEnded) (reads : List Bytes)
    (hplain : Parser.Plain (read reserve (fresh derived) reads.flatten)) :
    (readAll reserve (fresh derived) reads).1.kind =
        (read reserve (fresh derived) reads.flatten).kind ∧
      ∃ used, reads = used ++ (readAll reserve (fresh derived) reads).2 ∧
        (readAll reserve (fresh derived) reads).1 = read reserve (fresh derived) used.flatten ∧
        ∀ shorter rest, used = shorter ++ rest → rest ≠ [] →
          ∃ q, read reserve (fresh derived) shorter.flatten = .more q := by
  have hwaiting := waiting_fresh hstep
  have hnil := read_fresh_nil reserve derived
  refine ⟨(resumes reserve).kind_feedAll _ reads hwaiting hnil hplain, ?_⟩
  obtain ⟨used, hused, houtcome, hshorter, -⟩ :=
    (resumes reserve).feedAll_spec _ reads hwaiting hnil hplain
  exact ⟨used, hused, houtcome, hshorter⟩

/-- A cut inside the version, and one inside the empty line. -/
theorem readAll_eq_read_cut :
    (readAll (fun _ => true) (fresh .start)
      [ascii "GET / HT", ascii "TP/1.1\r\n\r", ascii "\n"]).1.kind = .done () := by
  have hplain : Parser.Plain (read (fun _ => true) (fresh .start)
      [ascii "GET / HT", ascii "TP/1.1\r\n\r", ascii "\n"].flatten) := rfl
  exact (readAll_eq_read (fun _ => true) .start start_step _ hplain).1

end FaceDetection.Webcc.RequestParser

import FaceDetection.Pieces
import FaceDetection.Webcc.Parser

/-!
# The loop of `ParseHeaders`

What one line does to the parser, and what a text of lines does. `Parse` waits, finds a wrong line, or
goes on to the content.
-/

open FaceDetection.Delimited FaceDetection.Pieces

namespace FaceDetection.Webcc

/-- How a read fails: the parser rejects the text, or the call does not return. Of a rejected request
the connection uses the message, and the next request what the derived class adds. -/
inductive Failure (M D : Type) where
  | rejected (message : M) (derived : D) (chunked : Bool)
  | crash (e : Crash)

namespace Parser

variable {M D : Type}

/-- The pending data is not looked at while the lines of it are parsed. -/
def withPending (pending_data : Bytes) (p : Parser M D) : Parser M D :=
  { p with pending_data := pending_data }

@[simp] theorem withPending_pending (s : Bytes) (p : Parser M D) :
    (p.withPending s).pending_data = s := rfl

@[simp] theorem withPending_withPending (s t : Bytes) (p : Parser M D) :
    (p.withPending s).withPending t = p.withPending t := rfl

@[simp] theorem withPending_header_ended (s : Bytes) (p : Parser M D) :
    (p.withPending s).header_ended = p.header_ended := rfl

@[simp] theorem withPending_message (s : Bytes) (p : Parser M D) :
    (p.withPending s).message = p.message := rfl

@[simp] theorem withPending_derived (s : Bytes) (p : Parser M D) :
    (p.withPending s).derived = p.derived := rfl

@[simp] theorem withPending_chunked (s : Bytes) (p : Parser M D) :
    (p.withPending s).chunked = p.chunked := rfl

@[simp] theorem withPending_finished (s : Bytes) (p : Parser M D) :
    (p.withPending s).finished = p.finished := rfl

variable [IsMessage M] (reserve : Nat → Bool) (parseStartLine : Bytes → M → Option M)

theorem parseHeaderLine_withPending (s : Bytes) (p : Parser M D) (line : Bytes) :
    (p.withPending s).parseHeaderLine reserve line =
      ((p.parseHeaderLine reserve line).1, (p.parseHeaderLine reserve line).2.withPending s) := by
  unfold parseHeaderLine withPending onMessage base
  cases split2 line (ch ':') with
  | none => rfl
  | some header =>
    simp only
    split_ifs
    · cases stoul header.2 10 with
      | none => rfl
      | some n => simp only; split <;> rfl
    all_goals rfl

theorem headerStep_withPending (s : Bytes) (st : Bool × Parser M D) (line : Bytes) :
    headerStep reserve parseStartLine (st.1, st.2.withPending s) line =
      (((headerStep reserve parseStartLine st line).1.1,
        (headerStep reserve parseStartLine st line).1.2.withPending s),
        (headerStep reserve parseStartLine st line).2) := by
  unfold headerStep
  by_cases hline : line = []
  · simp only [if_pos hline]
    rfl
  · simp only [if_neg hline]
    by_cases hstarted : st.2.start_line_parsed = true
    · have hstarted' : (st.2.withPending s).start_line_parsed = true := hstarted
      simp only [if_pos hstarted, if_pos hstarted', parseHeaderLine_withPending]
    · have hstarted' : ¬ (st.2.withPending s).start_line_parsed = true := hstarted
      simp only [if_neg hstarted, if_neg hstarted']
      simp only [onMessage, base, withPending]
      cases hstart : parseStartLine line (IsMessage.withMessage st.2.message
        { IsMessage.message st.2.message with start_line := line }) <;> rfl

/-- The loop of `ParseHeaders` over a text. -/
def scanHeaders (p : Parser M D) (s : Bytes) : (Bool × Parser M D) × Bytes × Bool :=
  scan kCRLF (headerStep reserve parseStartLine) (true, p) s

theorem scan_withPending (t : Bytes) (st : Bool × Parser M D) (s : Bytes) :
    scan kCRLF (headerStep reserve parseStartLine) (st.1, st.2.withPending t) s =
      (((scan kCRLF (headerStep reserve parseStartLine) st s).1.1,
        (scan kCRLF (headerStep reserve parseStartLine) st s).1.2.withPending t),
        (scan kCRLF (headerStep reserve parseStartLine) st s).2) :=
  scan_map kCRLF_ne_nil (fun st => (st.1, st.2.withPending t))
    (fun st line => headerStep_withPending reserve parseStartLine t st line) st s

/-- What the lines of the headers leave alone, and the mark that they do not take back. -/
structure HeadersOnly (p q : Parser M D) : Prop where
  pending_data : q.pending_data = p.pending_data
  content : q.content = p.content
  chunk_size : q.chunk_size = p.chunk_size
  finished : q.finished = p.finished
  derived : q.derived = p.derived
  chunked : p.chunked = true → q.chunked = true

omit [IsMessage M] in
theorem HeadersOnly.refl (p : Parser M D) : HeadersOnly p p := ⟨rfl, rfl, rfl, rfl, rfl, id⟩

omit [IsMessage M] in
theorem HeadersOnly.trans {p q r : Parser M D} (h : HeadersOnly p q) (h' : HeadersOnly q r) :
    HeadersOnly p r where
  pending_data := h'.pending_data.trans h.pending_data
  content := h'.content.trans h.content
  chunk_size := h'.chunk_size.trans h.chunk_size
  finished := h'.finished.trans h.finished
  derived := h'.derived.trans h.derived
  chunked hp := h'.chunked (h.chunked hp)

theorem parseHeaderLine_only (p : Parser M D) (line : Bytes) :
    HeadersOnly p (p.parseHeaderLine reserve line).2 ∧
      (p.parseHeaderLine reserve line).2.header_ended = p.header_ended := by
  unfold parseHeaderLine onMessage
  cases split2 line (ch ':') with
  | none => exact ⟨.refl p, rfl⟩
  | some header =>
    simp only
    split_ifs
    · cases stoul header.2 10 with
      | none => exact ⟨⟨rfl, rfl, rfl, rfl, rfl, id⟩, rfl⟩
      | some n =>
        simp only
        split <;> exact ⟨⟨rfl, rfl, rfl, rfl, rfl, id⟩, rfl⟩
    all_goals exact ⟨⟨rfl, rfl, rfl, rfl, rfl, by simp⟩, rfl⟩

theorem headerStep_only (st : Bool × Parser M D) (line : Bytes) :
    HeadersOnly st.2 (headerStep reserve parseStartLine st line).1.2 := by
  unfold headerStep
  by_cases hline : line = []
  · simp only [if_pos hline]
    exact ⟨rfl, rfl, rfl, rfl, rfl, id⟩
  · by_cases hstarted : st.2.start_line_parsed = true
    · simp only [if_neg hline, if_pos hstarted]
      exact (parseHeaderLine_only reserve st.2 line).1
    · simp only [if_neg hline, if_neg hstarted, onMessage]
      split <;> exact ⟨rfl, rfl, rfl, rfl, rfl, id⟩

/-- The loop goes on after a right line that is not empty. -/
theorem headerStep_go {st : Bool × Parser M D} {line : Bytes}
    (h : (headerStep reserve parseStartLine st line).2 = false) :
    (headerStep reserve parseStartLine st line).1.1 = true ∧
      (headerStep reserve parseStartLine st line).1.2.header_ended = st.2.header_ended := by
  unfold headerStep at h ⊢
  by_cases hline : line = []
  · simp [hline] at h
  · by_cases hstarted : st.2.start_line_parsed = true
    · simp only [if_neg hline, if_pos hstarted] at h ⊢
      exact ⟨by simpa using h, (parseHeaderLine_only reserve st.2 line).2⟩
    · simp only [if_neg hline, if_neg hstarted, onMessage] at h ⊢
      split at h
      · cases h
      · exact ⟨rfl, rfl⟩

/-- It stops at the empty line, and at a line that is wrong. -/
theorem headerStep_stop {st : Bool × Parser M D} {line : Bytes} (hst : st.2.header_ended = false)
    (h : (headerStep reserve parseStartLine st line).2 = true) :
    (headerStep reserve parseStartLine st line).1.2.header_ended =
      (headerStep reserve parseStartLine st line).1.1 := by
  unfold headerStep at h ⊢
  by_cases hline : line = []
  · simp only [if_pos hline]
  · by_cases hstarted : st.2.start_line_parsed = true
    · simp only [if_neg hline, if_pos hstarted] at h ⊢
      rw [(parseHeaderLine_only reserve st.2 line).2, hst]
      simpa using h
    · simp only [if_neg hline, if_neg hstarted, onMessage] at h ⊢
      split at h
      · exact hst
      · cases h

theorem scanHeaders_only (p : Parser M D) (s : Bytes) :
    HeadersOnly p (scanHeaders reserve parseStartLine p s).1.2 := by
  have h := scan_spec (headerStep reserve parseStartLine) kCRLF_ne_nil
    (P := fun st => HeadersOnly p st.2) (Q := fun st => HeadersOnly p st.2)
    (fun st line hst _ => hst.trans (headerStep_only reserve parseStartLine st line))
    (fun st line hst _ => hst.trans (headerStep_only reserve parseStartLine st line))
    (true, p) s (.refl p)
  unfold scanHeaders
  cases hstop : (scan kCRLF (headerStep reserve parseStartLine) (true, p) s).2.2 with
  | false => exact h.1 hstop
  | true => exact h.2 hstop

/-- Where the loop waits, all lines were right. Where it stops, the headers end or a line is wrong. -/
theorem scanHeaders_spec {p : Parser M D} (hp : p.header_ended = false) (s : Bytes) :
    ((scanHeaders reserve parseStartLine p s).2.2 = false →
        (scanHeaders reserve parseStartLine p s).1.1 = true ∧
          (scanHeaders reserve parseStartLine p s).1.2.header_ended = false) ∧
      ((scanHeaders reserve parseStartLine p s).2.2 = true →
        (scanHeaders reserve parseStartLine p s).1.2.header_ended =
          (scanHeaders reserve parseStartLine p s).1.1) := by
  apply scan_spec (headerStep reserve parseStartLine) kCRLF_ne_nil
    (P := fun st => st.1 = true ∧ st.2.header_ended = false)
    (Q := fun st => st.2.header_ended = st.1)
  · intro st line hst hgo
    have h := headerStep_go reserve parseStartLine hgo
    exact ⟨h.1, h.2.trans hst.2⟩
  · intro st line hst hstop
    exact headerStep_stop reserve parseStartLine hst.2 hstop
  · exact ⟨rfl, hp⟩

theorem scanHeaders_append_wait {p : Parser M D} (hp : p.header_ended = false) {s : Bytes}
    (h : (scanHeaders reserve parseStartLine p s).2.2 = false) (t : Bytes) :
    scanHeaders reserve parseStartLine p (s ++ t) =
      scanHeaders reserve parseStartLine (scanHeaders reserve parseStartLine p s).1.2
        ((scanHeaders reserve parseStartLine p s).2.1 ++ t) := by
  have hok := ((scanHeaders_spec reserve parseStartLine hp s).1 h).1
  have hstate : (scanHeaders reserve parseStartLine p s).1 =
      (true, (scanHeaders reserve parseStartLine p s).1.2) := Prod.ext hok rfl
  calc scanHeaders reserve parseStartLine p (s ++ t)
      = scan kCRLF (headerStep reserve parseStartLine) (scanHeaders reserve parseStartLine p s).1
          ((scanHeaders reserve parseStartLine p s).2.1 ++ t) :=
        scan_append_wait kCRLF_ne_nil _ s t h
    _ = _ := by rw [hstate]; rfl

theorem scanHeaders_append_stop {p : Parser M D} {s : Bytes}
    (h : (scanHeaders reserve parseStartLine p s).2.2 = true) (t : Bytes) :
    scanHeaders reserve parseStartLine p (s ++ t) =
      ((scanHeaders reserve parseStartLine p s).1,
        (scanHeaders reserve parseStartLine p s).2.1 ++ t, true) :=
  scan_append_stop kCRLF_ne_nil _ s t h

theorem scanHeaders_withPending (t : Bytes) (p : Parser M D) (s : Bytes) :
    scanHeaders reserve parseStartLine (p.withPending t) s =
      (((scanHeaders reserve parseStartLine p s).1.1,
        (scanHeaders reserve parseStartLine p s).1.2.withPending t),
        (scanHeaders reserve parseStartLine p s).2) :=
  scan_withPending reserve parseStartLine t (true, p) s

theorem parseHeaders_withPending (p : Parser M D) (s : Bytes) :
    parseHeaders reserve parseStartLine (p.withPending s) =
      if (scanHeaders reserve parseStartLine p s).1.1 then
        (true, (scanHeaders reserve parseStartLine p s).1.2.withPending
          (scanHeaders reserve parseStartLine p s).2.1)
      else (false, (scanHeaders reserve parseStartLine p s).1.2.withPending s) := by
  have hparse : parseHeaders reserve parseStartLine (p.withPending s) =
      let r := scanHeaders reserve parseStartLine (p.withPending s) s
      if r.1.1 then (true, r.1.2.withPending r.2.1) else (false, r.1.2) := rfl
  rw [hparse, scanHeaders_withPending]
  rfl

/-- `Parse` while the headers last: it waits, finds a wrong line, or goes on to the content. -/
theorem parse_headers
    (parseContent : Parser M D → Bytes → Except Crash (Bool × Parser M D)) {p : Parser M D}
    (hp : p.header_ended = false) (data : Bytes) :
    parse reserve parseStartLine parseContent p data =
      let r := scanHeaders reserve parseStartLine p (p.pending_data ++ data)
      if r.2.2 = false then .ok (true, r.1.2.withPending r.2.1)
      else if r.1.1 = false then .ok (false, r.1.2.withPending (p.pending_data ++ data))
      else parseContent (r.1.2.withPending r.2.1) [] := by
  have hspec := scanHeaders_spec reserve parseStartLine hp (p.pending_data ++ data)
  have hheaders := parseHeaders_withPending reserve parseStartLine p (p.pending_data ++ data)
  have hparse : parse reserve parseStartLine parseContent p data =
      let r := parseHeaders reserve parseStartLine (p.withPending (p.pending_data ++ data))
      if r.1 = false ∨ r.2.header_ended = false then .ok r else parseContent r.2 [] := by
    unfold parse
    rw [if_neg (by simp [hp])]
    rfl
  rw [hparse, hheaders]
  generalize scanHeaders reserve parseStartLine p (p.pending_data ++ data) = r at hspec
  simp only
  cases hstop : r.2.2 with
  | false =>
    obtain ⟨hok, hended⟩ := hspec.1 hstop
    simp [hok, hended]
  | true =>
    have hended := hspec.2 hstop
    cases hok : r.1.1 with
    | false => simp
    | true => simp [hended, hok]

/-! ## Outcomes -/

/-- What `OnRead` makes of the answer of `Parse`. -/
def outcome : Except Crash (Bool × Parser M D) → Outcome (Parser M D) (Failure M D)
  | .error e => .fail (.crash e)
  | .ok r =>
    if r.1 then (if r.2.finished then .done r.2 else .more r.2)
    else .fail (.rejected r.2.message r.2.derived r.2.chunked)

theorem finish_finished (p : Parser M D) : p.finish.finished = true := by
  unfold finish
  simp only
  split <;> rfl

theorem finish_chunked (p : Parser M D) : p.finish.chunked = p.chunked := by
  unfold finish
  simp only
  split <;> rfl

theorem outcome_finish (p : Parser M D) : outcome (.ok (true, p.finish)) = .done p.finish := by
  simp [outcome, finish_finished]

omit [IsMessage M] in
theorem outcome_more {p : Parser M D} (h : p.finished = false) :
    outcome (.ok (true, p)) = .more p := by
  simp [outcome, h]

/-- The call returns, and the headers have not announced chunks. -/
def Plain : Outcome (Parser M D) (Failure M D) → Prop
  | .more p => p.chunked = false
  | .done p => p.chunked = false
  | .fail (.rejected _ _ chunked) => chunked = false
  | .fail (.crash _) => False

/-! ## Chunks -/

/-- The chunks change nothing but the pending data, the content and the chunk size. -/
def ChunksOnly (p q : Parser M D) : Prop :=
  ∃ pending_data content chunk_size, q = { p with
    pending_data := pending_data
    content := content
    chunk_size := chunk_size }

omit [IsMessage M] in
theorem ChunksOnly.trans {p q r : Parser M D} (h : ChunksOnly p q) (h' : ChunksOnly q r) :
    ChunksOnly p r := by
  obtain ⟨_, _, _, rfl⟩ := h
  obtain ⟨s, content, n, rfl⟩ := h'
  exact ⟨s, content, n, rfl⟩

omit [IsMessage M] in
theorem ChunksOnly.finished {p r : Parser M D} (h : ChunksOnly p r) : r.finished = p.finished := by
  obtain ⟨_, _, _, rfl⟩ := h
  rfl

/-- A round behind the chunk size. -/
def takeChunk (p : Parser M D) : Round (Parser M D) (Except Crash (Bool × Parser M D)) :=
  if p.chunk_size = 0 then .leave (.ok (true, p.finish))
  else if (p.chunk_size + 2) % 2 ^ 64 ≤ p.pending_data.length then
    match p.appendContent p.pending_data p.chunk_size with
    | .error e => .leave (.error e)
    | .ok p => .again { p with
        pending_data := p.pending_data.drop ((p.chunk_size + 2) % 2 ^ 64)
        chunk_size := kInvalidLength }
  else if p.pending_data.length < p.chunk_size then
    .leave (.ok (true, { p with
      content := p.content ++ p.pending_data
      chunk_size := p.chunk_size - p.pending_data.length
      pending_data := [] }))
  else .leave (.ok (true, p))

theorem chunkedRound_eq (p : Parser M D) :
    chunkedRound p =
      let r := if p.chunk_size = kInvalidLength then p.parseChunkSize else (true, p)
      if r.1 = false then .leave (.ok r) else takeChunk r.2 := rfl

/-- What an answer of the loop over the chunks leaves: it may have finished the content. -/
def ChunksAnswer (p : Parser M D) : Except Crash (Bool × Parser M D) → Prop
  | .ok r => ChunksOnly p r.2 ∨ ∃ q, ChunksOnly p q ∧ r = (true, q.finish)
  | .error e => e = .lengthError

/-- A round that goes on has no chunk size. It takes something off the pending data if it had to look
for one. -/
def ChunksRound (p : Parser M D) : Round (Parser M D) (Except Crash (Bool × Parser M D)) → Prop
  | .again q => ChunksOnly p q ∧ q.chunk_size = kInvalidLength ∧
      q.pending_data.length ≤ p.pending_data.length ∧
      (p.chunk_size = kInvalidLength → q.pending_data.length < p.pending_data.length)
  | .leave r => ChunksAnswer p r

omit [IsMessage M] in
theorem parseChunkSize_spec (p : Parser M D) :
    ChunksOnly p p.parseChunkSize.2 ∧
      (p.parseChunkSize.2 = p ∨
        p.parseChunkSize.2.pending_data.length < p.pending_data.length) := by
  unfold parseChunkSize
  cases hcut : cut kCRLF p.pending_data with
  | none => exact ⟨⟨_, _, _, rfl⟩, Or.inl rfl⟩
  | some c =>
    have hlen := cut_length hcut
    have hless : c.2.length < p.pending_data.length := by
      simp only [kCRLF, List.length_cons] at hlen
      omega
    simp only
    cases stoul (hexStr c.1) 16 <;> exact ⟨⟨_, _, _, rfl⟩, Or.inr hless⟩

/-- The marker for "no size yet" wraps around to one, so a byte is taken even then. -/
theorem takeChunk_round (p : Parser M D) : ChunksRound p (takeChunk p) := by
  unfold takeChunk appendContent
  split_ifs with hzero hwhole hcount hmore
  · exact Or.inr ⟨p, ⟨_, _, _, rfl⟩, rfl⟩
  · refine ⟨⟨_, _, _, rfl⟩, rfl, by simp, fun hmarker => ?_⟩
    simp only [List.length_drop, hmarker, kInvalidLength] at hwhole ⊢
    omega
  · exact rfl
  · exact Or.inl ⟨_, _, _, rfl⟩
  · exact Or.inl ⟨_, _, _, rfl⟩

theorem ChunksAnswer.of_only {p q : Parser M D} {r : Except Crash (Bool × Parser M D)}
    (h : ChunksOnly p q) (hr : ChunksAnswer q r) : ChunksAnswer p r := by
  cases r with
  | error e => exact hr
  | ok r =>
    rcases hr with honly | ⟨q', honly, hfinish⟩
    · exact Or.inl (h.trans honly)
    · exact Or.inr ⟨q', h.trans honly, hfinish⟩

theorem ChunksRound.of_only {p q : Parser M D}
    {r : Round (Parser M D) (Except Crash (Bool × Parser M D))} (h : ChunksOnly p q)
    (hlen : q = p ∨ q.pending_data.length < p.pending_data.length) (hr : ChunksRound q r) :
    ChunksRound p r := by
  cases r with
  | again q' =>
    obtain ⟨honly, hsize, hle, hlt⟩ := hr
    refine ⟨h.trans honly, hsize, ?_, fun hmarker => ?_⟩
    · rcases hlen with rfl | hless
      · exact hle
      · omega
    · rcases hlen with rfl | hless
      · exact hlt hmarker
      · omega
  | leave r => exact ChunksAnswer.of_only h hr

theorem chunkedRound_round (p : Parser M D) : ChunksRound p (chunkedRound p) := by
  rw [chunkedRound_eq]
  by_cases hmarker : p.chunk_size = kInvalidLength
  · obtain ⟨honly, hlen⟩ := parseChunkSize_spec p
    simp only [if_pos hmarker]
    split_ifs
    · exact Or.inl honly
    · exact (takeChunk_round p.parseChunkSize.2).of_only honly hlen
  · simp only [if_neg hmarker, Bool.true_eq_false, if_false]
    exact takeChunk_round p

/-- The loop over the chunks comes to an end. -/
theorem parseChunkedContent_answer (p : Parser M D) (data : Bytes) :
    ChunksAnswer p (p.parseChunkedContent data) := by
  let q := p.withPending (p.pending_data ++ data)
  have hnext : ∀ q' q'' : Parser M D, ChunksOnly p q' → chunkedRound q' = .again q'' →
      ChunksOnly p q'' ∧
        q''.pending_data.length + (if q''.chunk_size = kInvalidLength then 0 else 1) <
          q'.pending_data.length + (if q'.chunk_size = kInvalidLength then 0 else 1) := by
    intro q' q'' honly hagain
    have hround := chunkedRound_round q'
    rw [hagain] at hround
    obtain ⟨hagain_only, hsize, hle, hlt⟩ := hround
    refine ⟨honly.trans hagain_only, ?_⟩
    rw [if_pos hsize]
    split_ifs with hmarker
    · exact hlt hmarker
    · omega
  have hstart : ChunksOnly p q := ⟨_, _, _, rfl⟩
  obtain ⟨r, hr⟩ := Leaves.rounds_of_measure
    (fun q' : Parser M D =>
      q'.pending_data.length + (if q'.chunk_size = kInvalidLength then 0 else 1))
    hnext (q.pending_data.length + 2) hstart (by split_ifs <;> omega)
  have hparse : p.parseChunkedContent data = r := by
    have heq : p.parseChunkedContent data =
        (rounds chunkedRound (q.pending_data.length + 2) q).getD (.error .fuel) := rfl
    rw [heq, hr, Option.getD_some]
  rw [hparse]
  apply (Leaves.of_rounds hr).result (I := ChunksOnly p) (Q := ChunksAnswer p) hstart
  · intro q' q'' honly hagain
    exact (hnext q' q'' honly hagain).1
  · intro q' r' honly hleave
    have hround := chunkedRound_round q'
    rw [hleave] at hround
    exact ChunksAnswer.of_only honly hround

theorem not_plain_of_chunked {p : Parser M D} (hp : p.chunked = true) (data : Bytes) :
    ¬ Plain (outcome (p.parseChunkedContent data)) := by
  have hanswer := parseChunkedContent_answer p data
  cases hparse : p.parseChunkedContent data with
  | error e => simp [outcome, Plain]
  | ok r =>
    rw [hparse] at hanswer
    have hchunked : r.2.chunked = true := by
      rcases hanswer with ⟨_, _, _, hr⟩ | ⟨q, ⟨_, _, _, rfl⟩, rfl⟩
      · rw [hr]
        exact hp
      · rw [finish_chunked]
        exact hp
    simp only [outcome]
    split_ifs <;> simp [Plain, hchunked]

end Parser

end FaceDetection.Webcc

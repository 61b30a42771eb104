import FaceDetection.Webcc.Head
import FaceDetection.Webcc.Talk

/-!
# A form behind a form

`Init` does not reset the step of a form. Once a connection has brought one form, the loop of
`ParseMultipartContent` starts at the step behind its end, where it neither leaves nor goes on.
-/

open FaceDetection.Pieces FaceDetection.Trace

namespace FaceDetection.Webcc

namespace RequestParser

/-! ## The step behind the end -/

theorem round_ended {p : RequestParser} (hpending : p.pending_data ≠ [])
    (hstep : p.derived.step = .kEnded) : multipartRound p = .again p := by
  unfold multipartRound
  rw [if_neg hpending, hstep]

/-- At the other steps the loop does not leave with false and the step of the end. -/
theorem round_leave_ended {p : RequestParser} {r : Bool × RequestParser}
    (hstep : p.derived.step ≠ .kEnded) (h : multipartRound p = .leave r)
    (hended : r.2.derived.step = .kEnded) : r.1 = true := by
  by_cases hpending : p.pending_data = []
  · unfold multipartRound at h
    rw [if_pos hpending] at h
    cases h
    rfl
  cases hcase : p.derived.step with
  | kStart =>
    rw [round_start_eq hpending hcase] at h
    cases hcut : Delimited.cut kCRLF p.pending_data with
    | none =>
      rw [hcut] at h
      cases h
      rfl
    | some c =>
      rw [hcut] at h
      simp only at h
      split_ifs at h
      cases h
      exact absurd hended hstep
  | kBoundaryParsed =>
    rw [round_headers_eq hpending hcase] at h
    unfold headersRound at h
    split_ifs at h
    · cases h
      cases hended
    · cases h
      rfl
  | kHeadersParsed =>
    rw [round_data_eq hpending hcase] at h
    cases hline : getNextBoundaryLine (boundary p) p.pending_data with
    | none =>
      rw [hline] at h
      cases h
      rfl
    | some b =>
      rw [hline] at h
      simp only at h
      split_ifs at h
      · cases h
        rfl
      · cases h
        exact absurd hended hstep
  | kEnded => exact absurd hcase hstep

theorem leaves_ended {p : RequestParser} {r : Bool × RequestParser}
    (h : Leaves multipartRound p r) (hstep : p.derived.step ≠ .kEnded)
    (hended : r.2.derived.step = .kEnded) : r.1 = true := by
  have hresult := h.result (I := fun q => q.derived.step ≠ .kEnded)
    (Q := fun r => r.2.derived.step = .kEnded → r.1 = true) hstep
    (fun q q' hq hagain => (round_again hq hagain).1)
    (fun q r hq hleave hr => round_leave_ended hq hleave hr)
  exact hresult hended

/-! ## What a call leaves behind -/

/-- A request that is read as a form. -/
def IsForm (p : RequestParser) : Prop :=
  p.chunked = false ∧ p.message.content_type.multipart = true

/-- A form of a known length, at the step behind the end of the last form. -/
structure Stale (p : RequestParser) : Prop where
  form : IsForm p
  parsed : p.content_length_parsed = true
  length : p.content_length ≠ kInvalidLength
  step : p.derived.step = .kEnded

/-- The answer of a call that parses content, for a parser that had not finished: it changes neither
what the content is taken for nor, unless it brings a form to its end, that the step is the last. -/
structure ContentAnswer (p : RequestParser) (r : Bool × RequestParser) : Prop where
  chunked : r.2.chunked = p.chunked
  content_type : r.2.message.content_type = p.message.content_type
  step : r.2.derived.step = .kEnded ↔
    p.derived.step = .kEnded ∨ (r.1 = true ∧ r.2.finished = true ∧ IsForm p)

theorem finish_only (p : RequestParser) :
    p.finish.chunked = p.chunked ∧ p.finish.derived = p.derived ∧
      p.finish.message.content_type = p.message.content_type := by
  rw [finish_message]
  unfold Parser.finish
  simp only
  split_ifs <;> exact ⟨rfl, rfl, rfl⟩

theorem FormOnly.keeps {p q : RequestParser} (h : FormOnly p q) :
    q.chunked = p.chunked ∧ q.message.content_type = p.message.content_type ∧
      q.finished = p.finished := by
  obtain ⟨_, _, _, rfl⟩ := h
  exact ⟨rfl, rfl, rfl⟩

theorem parseContent_chunks {p : RequestParser} (hchunked : p.chunked = true) {data : Bytes} :
    parseContent p data = p.parseChunkedContent data := by
  unfold parseContent
  rw [if_pos hchunked]

theorem fixedContent_answer {p : RequestParser} (hform : p.message.content_type.multipart = false)
    (data : Bytes) : ContentAnswer p (p.parseFixedContent data) := by
  have hnot : ¬ IsForm p := by
    rintro ⟨-, hmultipart⟩
    rw [hform] at hmultipart
    cases hmultipart
  have hsame : ∀ r : Bool × RequestParser, r.2.chunked = p.chunked →
      r.2.message.content_type = p.message.content_type → r.2.derived = p.derived →
      ContentAnswer p r := by
    intro r hchunked htype hderived
    exact ⟨hchunked, htype, by simp [hderived, hnot]⟩
  unfold Parser.parseFixedContent
  simp only
  split_ifs
  · obtain ⟨hchunked, hderived, htype⟩ := finish_only p
    exact hsame _ hchunked htype hderived
  · exact hsame _ rfl rfl rfl
  · obtain ⟨hchunked, hderived, htype⟩ := finish_only
      { p with content := p.content ++ p.pending_data ++ data, pending_data := [] }
    exact hsame _ hchunked htype hderived
  · exact hsame _ rfl rfl rfl

theorem chunkedContent_answer {p : RequestParser} (hchunked : p.chunked = true) {data : Bytes}
    {r : Bool × RequestParser} (h : p.parseChunkedContent data = .ok r) : ContentAnswer p r := by
  have hnot : ¬ IsForm p := by
    rintro ⟨hplain, -⟩
    rw [hchunked] at hplain
    cases hplain
  have hanswer := Parser.parseChunkedContent_answer p data
  rw [h] at hanswer
  rcases hanswer with ⟨_, _, _, hr⟩ | ⟨q, ⟨_, _, _, rfl⟩, rfl⟩
  · exact ⟨by rw [hr], by rw [hr], by simp [hr, hnot]⟩
  · obtain ⟨hsame, hderived, htype⟩ := finish_only { p with
      pending_data := _
      content := _
      chunk_size := _ }
    exact ⟨hsame, htype, by simp [hderived, hnot]⟩

/-- The call as one of the loop over the pending data. -/
theorem parseMultipartContent_eq (p : RequestParser) (data : Bytes) :
    let q := p.withPending (p.pending_data ++ data)
    parseMultipartContent p data =
      if p.content_length_parsed = false ∨ p.content_length = kInvalidLength then .ok (false, q)
      else (rounds multipartRound (q.pending_data.length + 1) q).elim (.error .fuel) fun r =>
        .ok (if r.1 = true ∧ r.2.derived.step = .kEnded then (true, r.2.finish) else r) := by
  intro q
  unfold parseMultipartContent
  by_cases hlength : p.content_length_parsed = false ∨ p.content_length = kInvalidLength
  · rw [if_pos hlength, if_pos hlength]
    rfl
  · rw [if_neg hlength, if_neg hlength]
    cases hrounds : rounds multipartRound (q.pending_data.length + 1) q with
    | none =>
      simp only [q, Parser.withPending] at hrounds ⊢
      rw [hrounds]
      rfl
    | some r =>
      simp only [q, Parser.withPending] at hrounds ⊢
      rw [hrounds]
      rfl

/-- A call on content returns, unless it brings content of a form to the step behind its end. -/
theorem multipartContent_answer {p : RequestParser} (hfinished : p.finished = false)
    (hform : IsForm p) (data : Bytes) :
    (Stale p ∧ p.pending_data ++ data ≠ [] ∧ parseMultipartContent p data = .error .fuel) ∨
      (¬ (Stale p ∧ p.pending_data ++ data ≠ []) ∧
        ∃ r, parseMultipartContent p data = .ok r ∧ ContentAnswer p r) := by
  rw [parseMultipartContent_eq]
  let q := p.withPending (p.pending_data ++ data)
  by_cases hlength : p.content_length_parsed = false ∨ p.content_length = kInvalidLength
  · refine Or.inr ⟨?_, (false, q), if_pos hlength, rfl, rfl, by simp [q]⟩
    rintro ⟨hstale, -⟩
    rcases hlength with hparsed | hvalue
    · rw [hstale.parsed] at hparsed
      cases hparsed
    · exact hstale.length hvalue
  rw [if_neg hlength]
  by_cases hended : p.derived.step = .kEnded
  · by_cases hpending : p.pending_data ++ data = []
    · have hround : rounds multipartRound (q.pending_data.length + 1) q = some (true, q) := by
        unfold rounds multipartRound
        rw [if_pos (by exact hpending)]
      obtain ⟨hchunked, hderived, htype⟩ := finish_only q
      refine Or.inr ⟨fun h => h.2 hpending, (true, q.finish), ?_, hchunked, htype, ?_⟩
      · rw [hround, Option.elim_some, if_pos ⟨rfl, hended⟩]
      · simp only [hderived]
        exact iff_of_true hended (Or.inl hended)
    · rw [not_or] at hlength
      refine Or.inl ⟨⟨hform, by simpa using hlength.1, hlength.2, hended⟩, hpending, ?_⟩
      rw [Leaves.rounds_of_self (round_ended (p := q) (by exact hpending) hended)]
      rfl
  · obtain ⟨r, hr, hleaves, honly⟩ := leaves_of_step (p := q) hended
    refine Or.inr ⟨fun h => hended h.1.step,
      if r.1 = true ∧ r.2.derived.step = .kEnded then (true, r.2.finish) else r, ?_, ?_⟩
    · rw [hr, Option.elim_some]
    · obtain ⟨hchunked, htype, hwaits⟩ := honly.keeps
      split_ifs with hends
      · obtain ⟨hchunked', hderived, htype'⟩ := finish_only r.2
        refine ⟨hchunked'.trans hchunked, htype'.trans htype, ?_⟩
        simp only [hderived]
        exact iff_of_true hends.2 (Or.inr ⟨trivial, Parser.finish_finished _, hform⟩)
      · have hstep : ¬ r.2.derived.step = .kEnded := fun h =>
          hends ⟨leaves_ended hleaves hended h, h⟩
        have hunfinished : r.2.finished = false := hwaits.trans hfinished
        exact ⟨hchunked, htype, by simp [hstep, hended, hunfinished]⟩

theorem parseContent_answer {p : RequestParser} (hfinished : p.finished = false) {data : Bytes}
    {r : Bool × RequestParser} (h : parseContent p data = .ok r) : ContentAnswer p r := by
  cases hchunked : p.chunked with
  | true => exact chunkedContent_answer hchunked (by rwa [← parseContent_chunks hchunked])
  | false =>
    rw [parseContent_plain hchunked] at h
    cases hmultipart : p.message.content_type.multipart with
    | false =>
      rw [hmultipart] at h
      cases h
      exact fixedContent_answer hmultipart data
    | true =>
      rw [hmultipart, if_pos rfl] at h
      rcases multipartContent_answer hfinished ⟨hchunked, hmultipart⟩ data with
        ⟨-, -, herror⟩ | ⟨-, r', hr', hanswer⟩
      · rw [h] at herror
        cases herror
      · rw [h] at hr'
        cases hr'
        exact hanswer

/-- The one case in which a call does not return. -/
theorem parseContent_hangs_iff {p : RequestParser} (hfinished : p.finished = false) (data : Bytes) :
    parseContent p data = .error .fuel ↔ Stale p ∧ p.pending_data ++ data ≠ [] := by
  cases hchunked : p.chunked with
  | true =>
    have hanswer := Parser.parseChunkedContent_answer p data
    rw [parseContent_chunks hchunked]
    refine iff_of_false (fun herror => ?_) ?_
    · rw [herror] at hanswer
      cases hanswer
    · rintro ⟨hstale, -⟩
      rw [hstale.form.1] at hchunked
      cases hchunked
  | false =>
    rw [parseContent_plain hchunked]
    cases hmultipart : p.message.content_type.multipart with
    | false =>
      refine iff_of_false (by simp) ?_
      rintro ⟨hstale, -⟩
      rw [hstale.form.2] at hmultipart
      cases hmultipart
    | true =>
      rw [if_pos rfl]
      rcases multipartContent_answer hfinished ⟨hchunked, hmultipart⟩ data with
        ⟨hstale, hpending, herror⟩ | ⟨hnot, r, hr, -⟩
      · exact iff_of_true herror ⟨hstale, hpending⟩
      · exact iff_of_false (by simp [hr]) hnot

/-! ## Reads -/

/-- Whether the step is the last one behind a read: a form that has come to its end makes it so, and
nothing takes it back. Where it is not the last one, every call returns. -/
def StepAfter (ended : Prop) : Outcome RequestParser (Failure Request FormState) → Prop
  | .more q => q.finished = false ∧ (q.derived.step = .kEnded ↔ ended)
  | .done q => q.derived.step = .kEnded ↔ ended ∨ IsForm q
  | .fail (.rejected _ derived _) => derived.step = .kEnded ↔ ended
  | .fail (.crash e) => e = .fuel → ended

theorem stepAfter_content {p : RequestParser} (hfinished : p.finished = false) (data : Bytes) :
    StepAfter (p.derived.step = .kEnded) (Parser.outcome (parseContent p data)) := by
  cases hparse : parseContent p data with
  | error e =>
    rintro rfl
    exact ((parseContent_hangs_iff hfinished data).mp hparse).1.step
  | ok r =>
    obtain ⟨hchunked, htype, hstep⟩ := parseContent_answer hfinished hparse
    have hform : IsForm r.2 ↔ IsForm p := by
      unfold IsForm
      rw [hchunked, htype]
    unfold Parser.outcome
    simp only
    split_ifs with hok hdone
    · simp only [hok, hdone, true_and] at hstep
      rw [StepAfter, hform]
      exact hstep
    · simp only [hdone, Bool.false_eq_true, false_and, and_false, or_false] at hstep
      exact ⟨by simpa using hdone, hstep⟩
    · simp only [hok, Bool.false_eq_true, false_and, or_false] at hstep
      exact hstep

variable (reserve : Nat → Bool)

theorem stepAfter_read {p : RequestParser} (hfinished : p.finished = false) (data : Bytes) :
    StepAfter (p.derived.step = .kEnded) (read reserve p data) := by
  cases hheaders : p.header_ended with
  | true =>
    unfold read parse Parser.parse
    rw [if_pos hheaders]
    exact stepAfter_content hfinished data
  | false =>
    have honly := Parser.scanHeaders_only reserve parseStartLine p (p.pending_data ++ data)
    have hread : read reserve p data = _ :=
      Parser.readWith_headers reserve parseStartLine parseContent hfinished hheaders data
    rw [hread, ← honly.derived]
    simp only
    split_ifs
    · exact ⟨honly.finished.trans hfinished, Iff.rfl⟩
    · exact Iff.rfl
    · exact stepAfter_content (by exact honly.finished.trans hfinished) []

theorem stepAfter_readAll (derived : FormState) (reads : List Bytes) :
    StepAfter (derived.step = .kEnded) (readAll reserve (fresh derived) reads).1 := by
  have hnext : ∀ (q : RequestParser) (a : Bytes) (t : RequestParser),
      q.finished = false ∧ (q.derived.step = .kEnded ↔ derived.step = .kEnded) →
      read reserve q a = .more t →
      t.finished = false ∧ (t.derived.step = .kEnded ↔ derived.step = .kEnded) := by
    rintro q a t ⟨hfinished, hstep⟩ hread
    have hafter := stepAfter_read reserve hfinished a
    rw [hread] at hafter
    exact ⟨hafter.1, hafter.2.trans hstep⟩
  have hfresh : (fresh derived).finished = false ∧
      ((fresh derived).derived.step = .kEnded ↔ derived.step = .kEnded) := ⟨rfl, Iff.rfl⟩
  rcases feedAll_last (I := fun q : RequestParser =>
    q.finished = false ∧ (q.derived.step = .kEnded ↔ derived.step = .kEnded)) hnext hfresh reads with
    ⟨q, hq, hmore⟩ | ⟨q, a, hq, hread⟩
  · unfold readAll
    rw [hq]
    exact hmore
  · unfold readAll
    rw [hread, ← propext hq.2]
    exact stepAfter_read reserve hq.1 a

variable {reserve}

/-! ## The second form -/

variable {start_line method target : Bytes} {es : List Header} {derived : FormState}

theorem stale_behindHead (hstep : derived.step = .kEnded)
    (h : FormHead reserve start_line method target es) :
    Stale (behindHead derived start_line method target es) := by
  obtain ⟨n, hlength, hn⟩ := h.length
  exact ⟨⟨h.plain, h.form⟩, by simp [behindHead, hlength], by simpa [behindHead, hlength] using hn,
    hstep⟩

theorem contentWith_stale {p : RequestParser} (h : Stale p) (hfinished : p.finished = false)
    (a : Bytes) : Parser.contentWith parseContent p a =
      if a = [] then .done (p.withPending []).finish else .fail (.crash .fuel) := by
  have hstale : Stale (p.withPending a) := ⟨h.form, h.parsed, h.length, h.step⟩
  unfold Parser.contentWith
  split_ifs with ha
  · subst ha
    rw [parseContent_plain (by exact h.form.1), if_pos (by exact h.form.2), parseMultipartContent_eq,
      if_neg (by simp [hstale.parsed, hstale.length])]
    exact (congrArg Parser.outcome (congrArg _ (if_pos ⟨rfl, h.step⟩))).trans (Parser.outcome_finish _)
  · rw [(parseContent_hangs_iff (by exact hfinished) []).mpr ⟨hstale, by simpa using ha⟩]
    rfl

/-- A second form, in reads up to the one in which its head ends. With content in that read the call
does not return. Without, the service gets the form with no parts. -/
theorem readAll_second (hstep : derived.step = .kEnded)
    (h : FormHead reserve start_line method target es) {reads : List Bytes} {last e : Bytes}
    (he : reads.flatten ++ last = Parser.headText start_line es ++ e)
    (hreads : reads.flatten.length < (Parser.headText start_line es).length) :
    (readAll reserve (fresh derived) (reads ++ [last])).1 =
      if e = [] then .done (behindHead derived start_line method target es).finish
      else .fail (.crash .fuel) := by
  let p := behindHead derived start_line method target es
  have hstale : Stale p := stale_behindHead hstep h
  have hsame : ∀ a, Parser.readWith reserve parseStartLine parseContent p a =
      Parser.contentWith parseContent p a := by
    intro a
    have hparse : Parser.parse reserve parseStartLine parseContent p a = parseContent p a :=
      if_pos rfl
    unfold Parser.readWith Parser.contentWith
    rw [hparse, parseContent_plain (by exact h.plain), parseContent_plain (by exact h.plain),
      if_pos (by exact h.form), if_pos (by exact h.form), parseMultipartContent_eq,
      parseMultipartContent_eq]
    simp only [Parser.withPending_pending, Parser.withPending_withPending, List.append_nil]
    rfl
  obtain ⟨front, last', rest, e', hsplit, he', hfront, hall⟩ :=
    (readsHead h.line h.headers derived).feedAll (fun a _ => hsame a) (reads ++ [last])
      (by rw [List.flatten_append, List.flatten_singleton, he])
  -- The head ends in the last read, so nothing is behind it.
  have hrest : rest = [] := by
    by_contra hne
    have hleads : front ++ [last'] <+: reads := by
      obtain ⟨rest', x, rfl⟩ := List.eq_nil_or_concat rest |>.resolve_left hne
      rw [List.concat_eq_append, ← List.cons_append, ← List.append_assoc] at hsplit
      obtain ⟨hreads', -⟩ := List.append_inj' hsplit rfl
      exact ⟨rest', by rw [hreads', List.append_assoc, List.singleton_append]⟩
    obtain ⟨more, hmore⟩ := hleads
    have hlen := congrArg List.length he'
    rw [← hmore] at hreads
    simp only [List.flatten_append, List.flatten_singleton, List.length_append] at hreads hlen
    omega
  subst hrest
  obtain ⟨hfront', hlast⟩ := List.append_inj' hsplit rfl
  cases hfront'
  cases hlast
  rw [he, List.append_cancel_left_eq] at he'
  subst he'
  have hone : (feedAll (Parser.readWith reserve parseStartLine parseContent) p [e]).1 =
      Parser.contentWith parseContent p e := by
    rw [feedAll_cons_end, hsame]
    rw [hsame, contentWith_stale hstale rfl]
    split_ifs <;> simp
  have hresult : (readAll reserve (fresh derived) (reads ++ [last])).1 =
      Parser.contentWith parseContent p e := (congrArg Prod.fst hall).trans hone
  rw [hresult, contentWith_stale hstale rfl]
  rfl

end RequestParser

/-! ## Forms in a talk -/

variable (reserve : Nat → Bool)

/-- One of the requests is a form that has come to its end. -/
def BroughtForm : FormState → List Exchange → Prop
  | _, [] => False
  | derived, e :: es =>
    (∃ q, parsed reserve derived e.reads = .done q ∧ RequestParser.IsForm q) ∨
      ∃ request next, settled reserve derived e.reads = some (request, next) ∧ BroughtForm next es

variable {reserve} {handler : Int → Request → Except Fault Response}

theorem settled_step {derived next : FormState} {reads : List Bytes} {request : Request}
    (h : settled reserve derived reads = some (request, next)) :
    next.step = .kEnded ↔ derived.step = .kEnded ∨
      ∃ q, parsed reserve derived reads = .done q ∧ RequestParser.IsForm q := by
  have hafter := RequestParser.stepAfter_readAll reserve derived reads
  unfold settled at h
  unfold parsed at h ⊢
  cases hparsed : (RequestParser.readAll reserve (RequestParser.fresh derived) reads).1 with
  | more q =>
    rw [hparsed] at h
    cases h
  | done q =>
    rw [hparsed] at h hafter
    cases h
    refine hafter.trans (or_congr Iff.rfl ?_)
    constructor
    · exact fun hform => ⟨q, rfl, hform⟩
    · rintro ⟨q', hq', hform⟩
      cases hq'
      exact hform
  | fail failure =>
    cases failure with
    | crash crash =>
      rw [hparsed] at h
      cases h
    | rejected message derived' chunked =>
      rw [hparsed] at h hafter
      cases h
      refine hafter.trans ?_
      simp

/-- The reads so far of the request that comes. -/
def Talk.reads (talk : Talk) : List Bytes :=
  match talk.phase with
  | .asking reads => reads
  | _ => []

/-- The step is the last one where the talk has brought a form. -/
theorem AllAnswer.step_iff {d d' : FormState} {es : List Exchange}
    (h : AllAnswer reserve handler d es d') :
    d'.step = .kEnded ↔ d.step = .kEnded ∨ BroughtForm reserve d es := by
  induction es generalizing d with
  | nil =>
    cases h
    simp [BroughtForm]
  | cons e es ih =>
    obtain ⟨-, request, next, hsettled, hrest⟩ := h
    rw [ih hrest, settled_step hsettled, or_assoc, BroughtForm]
    refine or_congr Iff.rfl (or_congr Iff.rfl ?_)
    constructor
    · exact fun hform => ⟨request, next, hsettled, hform⟩
    · rintro ⟨request', next', hsettled', hform⟩
      rw [hsettled] at hsettled'
      cases hsettled'
      exact hform

/-! ## The server -/

namespace Server

variable {κ : Type} [DecidableEq κ] [Fintype κ] {s t u : Server κ}

/-- From `t` to `u` no handler has run: nothing has been accepted, and no parser has been given
anything. -/
structure Frozen (t u : Server κ) : Prop where
  io : u.io = .stuck
  accepted : u.accepted = t.accepted
  parsers : ∀ j, (u.connections j).map Connection.requestParser =
    (t.connections j).map Connection.requestParser

theorem Frozen.step {v : Server κ} {e : Event κ} (h : Frozen t u)
    (hstep : step reserve handler u e = some v) : Frozen t v := by
  obtain ⟨-, hcases⟩ := step_cases hstep
  have hio := h.io
  cases hcases with
  | pop hw => exact ⟨h.io, h.accepted, h.parsers⟩
  | leave hw => exact ⟨h.io, h.accepted, h.parsers⟩
  | throws hk hc he => exact ⟨h.io, h.accepted, h.parsers⟩
  | @handle k i c uninitialised timestamp response hk hc hresponse =>
    refine ⟨h.io, h.accepted, fun j => ?_⟩
    rw [← h.parsers]
    change (Function.update u.connections i _ j).map _ = _
    by_cases hj : j = i
    · rw [hj, Function.update_self, hc]
      rfl
    · rw [Function.update_of_ne hj]
  | accept hrun haccepting => exact absurd (hio.symm.trans hrun) (by decide)
  | signal hrun hawaiting => exact absurd (hio.symm.trans hrun) (by decide)
  | read hrun hc hop => exact absurd (hio.symm.trans hrun) (by decide)
  | readFailed hrun hc hop => exact absurd (hio.symm.trans hrun) (by decide)
  | written hrun hc hop => exact absurd (hio.symm.trans hrun) (by decide)
  | writeFailed hrun hc hop => exact absurd (hio.symm.trans hrun) (by decide)
  | stopped hjoin hall => exact absurd (hio.symm.trans hjoin) (by decide)

theorem frozen_run {fs : List (Event κ)} (hio : t.io = .stuck)
    (h : Trace.run (step reserve handler) t fs = some u) : Frozen t u :=
  run_invariant h ⟨hio, rfl, fun _ => rfl⟩ fun _ _ _ hfrozen hstep => hfrozen.step hstep

theorem read_step {i : Nat} {data timestamp : Bytes} {talk : Talk} (hm : Matches reserve i s talk)
    (hstep : step reserve handler s (.read i data timestamp) = some t) :
    ∃ c, s.io = .running ∧ t = s.onRead reserve i c data timestamp ∧
      (RequestParser.readAll reserve (RequestParser.fresh talk.derived) (talk.reads ++ [data])).1 =
        RequestParser.read reserve c.requestParser data := by
  obtain ⟨hdown, hcases⟩ := step_cases hstep
  cases hcases with
  | @read _ c _ _ hrun hc hop =>
    obtain ⟨reads, hphase, -, hall⟩ := hm.asking hdown hc hop
    refine ⟨c, hrun, rfl, ?_⟩
    unfold Talk.reads
    rw [hphase]
    exact congrArg Prod.fst (feedAll_concat hall data)

omit [DecidableEq κ] [Fintype κ] in
/-- The io thread sticks in a read just when the call of the parser does not return. -/
theorem onRead_stuck_iff {i : Nat} {c : Connection} {data timestamp : Bytes} (hio : s.io = .running) :
    (s.onRead reserve i c data timestamp).io = .stuck ↔
      RequestParser.read reserve c.requestParser data = .fail (.crash .fuel) := by
  unfold RequestParser.read
  cases hparse : RequestParser.parse reserve c.requestParser data with
  | error e =>
    have hread : (c.takeOp .read).onRead reserve timestamp data = (.crashed e, c.takeOp .read) :=
      Connection.onRead_error (c := c.takeOp .read) hparse timestamp
    unfold onRead
    simp only [hread]
    cases e <;> simp [Parser.outcome, setConnection, hio]
  | ok r =>
    have hread := Connection.onRead_ok (c := c.takeOp .read) hparse timestamp
    have hnot : ¬ Parser.outcome (.ok r) = .fail (.crash .fuel) := by
      unfold Parser.outcome
      simp only
      split_ifs <;> simp
    refine iff_of_false ?_ hnot
    unfold onRead
    simp only [hread]
    split_ifs <;> simp [setConnection, hio]

omit [DecidableEq κ] [Fintype κ] in
theorem onRead_done (s : Server κ) (i : Nat) {c : Connection} {data : Bytes} (timestamp : Bytes)
    {q : RequestParser} (h : RequestParser.read reserve c.requestParser data = .done q) :
    some i ∈ (s.onRead reserve i c data timestamp).workers.queue ∧
      (s.onRead reserve i c data timestamp).connections i =
        some { c.takeOp .read with requestParser := q } := by
  unfold RequestParser.read at h
  cases hparse : RequestParser.parse reserve c.requestParser data with
  | error e =>
    rw [hparse] at h
    cases h
  | ok r =>
    rw [hparse] at h
    unfold Parser.outcome at h
    simp only at h
    split_ifs at h with hok hfinished
    cases h
    have hread := Connection.onRead_ok (c := c.takeOp .read) hparse timestamp
    rw [if_neg (by simp [hok]), if_neg (by simp [hfinished])] at hread
    unfold onRead
    simp only [hread]
    exact ⟨List.mem_append_right _ (List.mem_singleton_self _), Function.update_self ..⟩

/-- A read that sticks is one on a connection that has brought a form. And there the read in which the
head of another form ends sticks for ever when it brings content behind the head; when it brings
none, the form goes to the service without its parts. -/
theorem second_form_sticks {es : List (Event κ)}
    (h : Trace.run (step reserve handler) init es = some s) (i : Nat) :
    ∃ talk, Trace.run (Talk.step reserve handler) Talk.start
        (share (step reserve handler) (talkEvents i) init es) = some talk ∧
      ∀ data timestamp t, step reserve handler s (.read i data timestamp) = some t →
        (t.io = .stuck → BroughtForm reserve .start talk.exchanges) ∧
          (BroughtForm reserve .start talk.exchanges → ∀ start_line method target headers e,
            RequestParser.FormHead reserve start_line method target headers →
            talk.reads.flatten ++ data = Parser.headText start_line headers ++ e →
            talk.reads.flatten.length < (Parser.headText start_line headers).length →
              if e = [] then some i ∈ t.workers.queue ∧ ∃ c, t.connections i = some c ∧
                c.request = RequestParser.announced start_line method target headers
              else ∀ fs u, Trace.run (step reserve handler) t fs = some u → Frozen t u) := by
  obtain ⟨talk, htalk, hmatches⟩ := run_simulates h (matches_init i)
    fun _ _ _ _ hm hstep => follows hm hstep
  have hended : talk.derived.step = .kEnded ↔ BroughtForm reserve .start talk.exchanges := by
    rw [(Talk.ok_run htalk).exchanges.step_iff]
    simp [FormState.start]
  refine ⟨talk, htalk, fun data timestamp t hstep => ?_⟩
  obtain ⟨c, hio, rfl, hread⟩ := read_step hmatches hstep
  refine ⟨fun hstuck => ?_, fun hform start_line method target headers e hhead he hlen => ?_⟩
  · rw [onRead_stuck_iff hio, ← hread] at hstuck
    have hafter := RequestParser.stepAfter_readAll reserve talk.derived (talk.reads ++ [data])
    rw [hstuck] at hafter
    exact hended.mp (hafter rfl)
  · have hsecond := RequestParser.readAll_second (hended.mpr hform) hhead he hlen
    rw [hread] at hsecond
    split_ifs at hsecond ⊢ with hempty
    · obtain ⟨hqueue, hset⟩ := onRead_done s i timestamp hsecond
      exact ⟨hqueue, _, hset, RequestParser.finish_message _⟩
    · exact fun fs u hrun => frozen_run ((onRead_stuck_iff hio).mpr hsecond) hrun

/-- A form of one part, and the head of another with its first byte. -/
theorem second_form_sticks_byte :
    let headers := [(kContentType, ascii "multipart/form-data; boundary=b"),
      (kContentLength, ascii "17")]
    let head := Parser.headText (ascii "POST /images HTTP/1.1") headers
    ∃ s t : Server (Fin 1),
      Trace.run (step (fun _ => true) fun _ _ => .ok (Response.new 404)) init
        [.accept true, .read 0 (head ++ ascii "--b\r\n\r\nx\r\n--b--\r\n") [], .pop 0, .handle 0 0 [],
          .written 0] = some s ∧
      step (fun _ => true) (fun _ _ => .ok (Response.new 404)) s (.read 0 (head ++ ascii "-") []) =
        some t ∧ t.io = .stuck := by
  intro headers head
  have hhead : RequestParser.FormHead (fun _ => true) (ascii "POST /images HTTP/1.1") (ascii "POST")
      (ascii "/images") headers := by
    refine ⟨RequestParser.requestLine_post, ⟨by decide, ?_⟩, by decide, by decide, 17, by decide,
      by decide⟩
    intro h hh
    rcases List.mem_cons.mp hh with rfl | hh
    · exact ⟨fun h => absurd h (by decide), fun _ => by decide⟩
    · rw [List.mem_singleton.mp hh]
      exact ⟨fun _ => ⟨17, by decide, rfl⟩, fun h => absurd h (by decide)⟩
  let first : List (Event (Fin 1)) :=
    [.accept true, .read 0 (head ++ ascii "--b\r\n\r\nx\r\n--b--\r\n") [], .pop 0, .handle 0 0 [],
      .written 0]
  have hfirst : (Trace.run (step (fun _ => true) fun _ _ => .ok (Response.new 404)) init
      first).isSome = true := by decide +kernel
  have hall : (Trace.run (step (fun _ => true) fun _ _ => .ok (Response.new 404)) init
      (first ++ [.read 0 (head ++ ascii "-") []])).isSome = true := by decide +kernel
  obtain ⟨s, hs⟩ := Option.isSome_iff_exists.mp hfirst
  rw [run_append hs] at hall
  obtain ⟨t', ht'⟩ := Option.isSome_iff_exists.mp hall
  obtain ⟨t, ht, -⟩ := run_cons ht'
  refine ⟨s, t, hs, ht, ?_⟩
  obtain ⟨talk, htalk, hreads⟩ := second_form_sticks hs 0
  have hended : (Trace.run (Talk.step (fun _ => true) fun _ _ => .ok (Response.new 404)) Talk.start
      (share (step (fun _ => true) fun _ _ => .ok (Response.new 404)) (talkEvents 0) init first)).map
        (fun talk => (talk.derived.step, talk.reads)) = some (.kEnded, []) := by decide +kernel
  rw [htalk, Option.map_some, Option.some.injEq, Prod.mk.injEq] at hended
  have hform : BroughtForm (fun _ => true) .start talk.exchanges := by
    have hiff := (Talk.ok_run htalk).exchanges.step_iff
    exact (hiff.mp hended.1).resolve_left (by decide)
  have hsticks := (hreads _ _ t ht).2 hform _ _ _ headers (ascii "-") hhead
    (by rw [hended.2]; rfl) (by rw [hended.2]; decide)
  rw [if_neg (by decide)] at hsticks
  exact (hsticks [] t rfl).io

end Server

end FaceDetection.Webcc

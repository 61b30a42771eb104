import FaceDetection.Webcc.HeaderText

/-!
# Reads of a message

A head as the parser reads it, and a content of a known length behind it, in any reads. Requests and
responses share this: nothing here looks at what a derived class adds.
-/

open FaceDetection.Delimited FaceDetection.Pieces

namespace FaceDetection.Webcc.Parser

variable {M D : Type} [IsMessage M] (reserve : Nat → Bool) (parseStartLine : Bytes → M → Option M)
  (parseContent : Parser M D → Bytes → Except Crash (Bool × Parser M D))

/-- A read, and what the handler makes of the answer of `Parse`. -/
def readWith (p : Parser M D) (data : Bytes) : Outcome (Parser M D) (Failure M D) :=
  outcome (parse reserve parseStartLine parseContent p data)

/-- What comes behind the headers. -/
def contentWith (p : Parser M D) (s : Bytes) : Outcome (Parser M D) (Failure M D) :=
  outcome (parseContent (p.withPending s) [])

theorem readWith_headers {p : Parser M D} (hfinished : p.finished = false)
    (hheaders : p.header_ended = false) (data : Bytes) :
    readWith reserve parseStartLine parseContent p data =
      let r := scanHeaders reserve parseStartLine p (p.pending_data ++ data)
      if r.2.2 = false then .more (r.1.2.withPending r.2.1)
      else if r.1.1 = false then .fail (.rejected r.1.2.message r.1.2.derived r.1.2.chunked)
      else contentWith parseContent r.1.2 r.2.1 := by
  have hstays := (scanHeaders_only reserve parseStartLine p (p.pending_data ++ data)).finished
  unfold readWith
  rw [parse_headers reserve parseStartLine parseContent hheaders]
  simp only
  split_ifs
  · exact outcome_more (by exact hstays.trans hfinished)
  · rfl
  · rfl

/-- While the headers last, the parser waits with the rest of the text. -/
theorem readWith_append_wait {p : Parser M D} (hfinished : p.finished = false)
    (hheaders : p.header_ended = false) (a b : Bytes)
    (hwait : (scanHeaders reserve parseStartLine p (p.pending_data ++ a)).2.2 = false) :
    let r := scanHeaders reserve parseStartLine p (p.pending_data ++ a)
    readWith reserve parseStartLine parseContent p (a ++ b) =
      readWith reserve parseStartLine parseContent (r.1.2.withPending r.2.1) b := by
  intro r
  have honly := scanHeaders_only reserve parseStartLine p (p.pending_data ++ a)
  have hended : r.1.2.header_ended = false :=
    ((scanHeaders_spec reserve parseStartLine hheaders _).1 hwait).2
  have hwaits : r.1.2.finished = false := honly.finished.trans hfinished
  rw [readWith_headers reserve parseStartLine parseContent hfinished hheaders,
    readWith_headers reserve parseStartLine parseContent (p := r.1.2.withPending r.2.1) hwaits hended,
    ← List.append_assoc]
  simp only [scanHeaders_withPending, withPending_pending, withPending_withPending,
    withPending_message, withPending_derived, withPending_chunked]
  rw [scanHeaders_append_wait reserve parseStartLine hheaders hwait]
  rfl

/-! ## The head -/

/-- From `p` the text `head` is the head of a message, and the parser behind it is `behind`. -/
structure ReadsHead (p : Parser M D) (head : Bytes) (behind : Parser M D) : Prop where
  waiting : p.finished = false
  headers : p.header_ended = false
  pending : p.pending_data = []
  nonempty : head ≠ []
  scan : ∀ s, scanHeaders reserve parseStartLine p (head ++ s) = ((true, behind), s, true)

variable {reserve parseStartLine parseContent} {p behind : Parser M D} {head : Bytes}

theorem ReadsHead.ended (h : ReadsHead reserve parseStartLine p head behind) :
    behind.header_ended = true := by
  have hspec := (scanHeaders_spec reserve parseStartLine h.headers (head ++ [])).2
  rw [h.scan] at hspec
  exact hspec rfl

theorem ReadsHead.only (h : ReadsHead reserve parseStartLine p head behind) :
    HeadersOnly p behind := by
  have honly := scanHeaders_only reserve parseStartLine p (head ++ [])
  rw [h.scan] at honly
  exact honly

theorem ReadsHead.behind_pending (h : ReadsHead reserve parseStartLine p head behind) :
    behind.pending_data = [] :=
  h.only.pending_data.trans h.pending

theorem ReadsHead.read (h : ReadsHead reserve parseStartLine p head behind) (data : Bytes) :
    readWith reserve parseStartLine parseContent p (head ++ data) =
      contentWith parseContent behind data := by
  rw [readWith_headers reserve parseStartLine parseContent h.waiting h.headers, h.pending,
    List.nil_append, h.scan]
  rfl

/-- The loop over the headers stops at their end, and not before. -/
theorem ReadsHead.stop {data s : Bytes} (h : ReadsHead reserve parseStartLine p head behind)
    (hs : s <+: head ++ data) (hstop : (scanHeaders reserve parseStartLine p s).2.2 = true) :
    ∃ e, s = head ++ e ∧ e <+: data := by
  obtain ⟨t, ht⟩ := hs
  have happend := scanHeaders_append_stop reserve parseStartLine hstop t
  rw [ht, h.scan] at happend
  -- What is left of `s` and then `t` make up the data.
  have hdata : data = (scanHeaders reserve parseStartLine p s).2.1 ++ t :=
    congrArg (fun r => r.2.1) happend
  refine ⟨(scanHeaders reserve parseStartLine p s).2.1, ?_, t, hdata.symm⟩
  rw [hdata, ← List.append_assoc] at ht
  exact List.append_cancel_right ht

/-- The reads of a message are those of its head and then, from the parser behind it, those of what
follows: `e` is the rest of the read in which the head ends. -/
theorem ReadsHead.feedAll (h : ReadsHead reserve parseStartLine p head behind) {data : Bytes}
    (hsame : ∀ e, e <+: data → readWith reserve parseStartLine parseContent behind e =
      contentWith parseContent behind e) (reads : List Bytes) (hreads : reads.flatten = head ++ data) :
    ∃ front last rest e, reads = front ++ last :: rest ∧ front.flatten ++ last = head ++ e ∧
      front.flatten.length < head.length ∧
      feedAll (readWith reserve parseStartLine parseContent) p reads =
        feedAll (readWith reserve parseStartLine parseContent) behind (e :: rest) := by
  -- `q` is where the reads `u` have led to.
  suffices hfrom : ∀ (reads : List Bytes) (u : Bytes) (q : Parser M D),
      (∀ a, readWith reserve parseStartLine parseContent q a =
        readWith reserve parseStartLine parseContent p (u ++ a)) →
      u ++ reads.flatten = head ++ data → u.length < head.length →
      ∃ front last rest e, reads = front ++ last :: rest ∧ u ++ front.flatten ++ last = head ++ e ∧
        (u ++ front.flatten).length < head.length ∧
        Pieces.feedAll (readWith reserve parseStartLine parseContent) q reads =
          Pieces.feedAll (readWith reserve parseStartLine parseContent) behind (e :: rest) by
    simpa only [List.nil_append] using
      hfrom reads [] p (fun _ => rfl) hreads (List.length_pos_of_ne_nil h.nonempty)
  intro reads
  induction reads with
  | nil =>
    intro u q _ hreads hu
    have hlen := congrArg List.length hreads
    simp only [List.flatten_nil, List.append_nil, List.length_append] at hlen
    omega
  | cons a reads ih =>
    intro u q hq hreads hu
    have hleads : u ++ a <+: head ++ data := by
      rw [← hreads, List.flatten_cons, ← List.append_assoc]
      exact List.prefix_append _ _
    cases hstop : (scanHeaders reserve parseStartLine p (u ++ a)).2.2 with
    | true =>
      obtain ⟨e, he, hdata⟩ := h.stop hleads hstop
      refine ⟨[], a, reads, e, rfl, by simpa using he, by simpa using hu, ?_⟩
      have hread : readWith reserve parseStartLine parseContent q a =
          readWith reserve parseStartLine parseContent behind e := by
        rw [hq, he, h.read, hsame e hdata]
      rw [Pieces.feedAll, Pieces.feedAll, hread]
    | false =>
      have hshort : (u ++ a).length < head.length := by
        by_contra hlong
        obtain ⟨e, he⟩ := List.prefix_of_prefix_length_le (List.prefix_append _ data) hleads
          (by omega)
        rw [← he, h.scan] at hstop
        cases hstop
      have hpending : p.pending_data ++ (u ++ a) = u ++ a := by rw [h.pending, List.nil_append]
      have hmore := readWith_headers reserve parseStartLine parseContent h.waiting h.headers (u ++ a)
      rw [hpending] at hmore
      simp only [hstop, if_true] at hmore
      obtain ⟨front, last, rest, e, hsplit, he, hfront, hall⟩ :=
        ih (u ++ a) _
          (fun b => by
            have hwait := readWith_append_wait reserve parseStartLine parseContent h.waiting h.headers
              (u ++ a) b (by rwa [hpending])
            rw [hpending] at hwait
            exact hwait.symm)
          (by rw [← hreads, List.flatten_cons, List.append_assoc]) hshort
      refine ⟨a :: front, last, rest, e, by rw [hsplit, List.cons_append], ?_, ?_, ?_⟩
      · rw [← he, List.flatten_cons]
        simp only [List.append_assoc]
      · rwa [List.flatten_cons, ← List.append_assoc]
      · rw [← hall]
        exact feedAll_cons_more ((hq a).trans hmore) reads

/-! ## A content of a known length -/

/-- The content is taken as it comes. -/
def TakesFixed (parseContent : Parser M D → Bytes → Except Crash (Bool × Parser M D))
    (p : Parser M D) : Prop :=
  ∀ content pending data, parseContent { p with content := content, pending_data := pending } data =
    .ok (parseFixedContent { p with content := content, pending_data := pending } data)

/-- The parser takes content of `n` bytes. -/
structure Fixed (parseContent : Parser M D → Bytes → Except Crash (Bool × Parser M D)) (n : Nat)
    (p : Parser M D) : Prop where
  headers : p.header_ended = true
  waiting : p.finished = false
  parsed : p.content_length_parsed = true
  length : p.content_length = n
  content : TakesFixed parseContent p

theorem finish_message (p : Parser M D) :
    p.finish.message =
      if p.content = [] then p.message
      else IsMessage.withMessage p.message
        { p.base with content_length := p.content_length, content := p.content } := by
  unfold finish
  simp only
  split_ifs <;> rfl

/-- What the parser has when it has taken more content. -/
def taking (p : Parser M D) (data : Bytes) : Parser M D :=
  { p with content := p.content ++ data, pending_data := [] }

variable {n : Nat}

theorem Fixed.taking (h : Fixed parseContent n p) (data : Bytes) :
    Fixed parseContent n (p.taking data) :=
  ⟨h.headers, h.waiting, h.parsed, h.length, h.content⟩

theorem parseFixedContent_eq (hparsed : p.content_length_parsed = true)
    (hn : p.content_length ≠ kInvalidLength) (data : Bytes) :
    p.parseFixedContent data =
      if p.content_length ≤ (p.taking (p.pending_data ++ data)).content.length then
        (true, (p.taking (p.pending_data ++ data)).finish)
      else (true, p.taking (p.pending_data ++ data)) := by
  unfold parseFixedContent Parser.taking
  rw [if_neg (by simp [hparsed]), if_neg hn]
  simp only [List.append_assoc]

theorem Fixed.outcome (h : Fixed parseContent n p) (hn : n ≠ kInvalidLength) (data : Bytes) :
    Parser.outcome (.ok (p.parseFixedContent data)) =
      if n ≤ p.content.length + (p.pending_data ++ data).length then
        .done (p.taking (p.pending_data ++ data)).finish
      else .more (p.taking (p.pending_data ++ data)) := by
  rw [parseFixedContent_eq h.parsed (by rwa [h.length]), h.length]
  have hlength : (p.taking (p.pending_data ++ data)).content.length =
      p.content.length + (p.pending_data ++ data).length := List.length_append
  rw [hlength]
  split_ifs
  · exact outcome_finish _
  · exact outcome_more (by exact h.waiting)

variable (reserve parseStartLine) in
theorem Fixed.read (h : Fixed parseContent n p) (hn : n ≠ kInvalidLength)
    (hpending : p.pending_data = []) (data : Bytes) :
    readWith reserve parseStartLine parseContent p data =
      if n ≤ p.content.length + data.length then .done (p.taking data).finish
      else .more (p.taking data) := by
  have hparse : parse reserve parseStartLine parseContent p data = .ok (p.parseFixedContent data) := by
    unfold parse
    rw [if_pos h.headers]
    exact h.content p.content p.pending_data data
  unfold readWith
  rw [hparse, h.outcome hn, hpending, List.nil_append]

variable (reserve parseStartLine) in
/-- Content comes until its length is reached, and the parser is done with the read that does so. -/
theorem Fixed.feedAll (h : Fixed parseContent n p) (hn : n ≠ kInvalidLength)
    (hpending : p.pending_data = []) (e : Bytes) (rest : List Bytes) :
    let result := feedAll (readWith reserve parseStartLine parseContent) p (e :: rest)
    (p.content.length + (e :: rest).flatten.length < n → ∃ q, result = (.more q, [])) ∧
      (n ≤ p.content.length + (e :: rest).flatten.length →
        ∃ used, rest = used ++ result.2 ∧ result.1 = .done (p.taking (e :: used).flatten).finish ∧
          n ≤ p.content.length + (e :: used).flatten.length ∧
          ∀ shorter more, used = shorter ++ more → more ≠ [] →
            p.content.length + (e :: shorter).flatten.length < n) := by
  induction rest generalizing p e with
  | nil =>
    have hread := h.read reserve parseStartLine hn hpending e
    simp only [List.flatten_cons, List.flatten_nil, List.append_nil]
    constructor
    · intro hshort
      rw [if_neg (by omega)] at hread
      exact ⟨_, feedAll_cons_more hread []⟩
    · intro hlong
      rw [if_pos hlong] at hread
      have hend : ¬ ∃ q, readWith reserve parseStartLine parseContent p e = .more q := by
        rw [hread]
        simp
      rw [feedAll_cons_end hend, hread]
      refine ⟨[], rfl, by simp, by simpa using hlong, ?_⟩
      intro shorter more hsplit hmore
      exact absurd (List.append_eq_nil_iff.mp hsplit.symm).2 hmore
  | cons a rest ih =>
    have hread := h.read reserve parseStartLine hn hpending e
    by_cases hfull : n ≤ p.content.length + e.length
    · rw [if_pos hfull] at hread
      have hend : ¬ ∃ q, readWith reserve parseStartLine parseContent p e = .more q := by
        rw [hread]
        simp
      rw [feedAll_cons_end hend, hread]
      constructor
      · intro hshort
        rw [List.flatten_cons, List.length_append] at hshort
        omega
      · intro _
        refine ⟨[], rfl, by simp, by simpa using hfull, ?_⟩
        intro shorter more hsplit hmore
        exact absurd (List.append_eq_nil_iff.mp hsplit.symm).2 hmore
    · rw [if_neg hfull] at hread
      have hnext := ih (h.taking e) rfl a
      have hcontent : (p.taking e).content.length = p.content.length + e.length :=
        List.length_append
      have htaking : ∀ s, (p.taking e).taking s = p.taking (e ++ s) := by
        intro s
        unfold Parser.taking
        simp only [List.append_assoc]
      simp only [hcontent, htaking] at hnext
      rw [feedAll_cons_more hread]
      have hflatten : ∀ reads : List Bytes, p.content.length + (e :: reads).flatten.length =
          p.content.length + e.length + reads.flatten.length := by
        intro reads
        rw [List.flatten_cons, List.length_append, Nat.add_assoc]
      rw [hflatten]
      refine ⟨hnext.1, fun hlong => ?_⟩
      obtain ⟨used, hused, hdone, hreached, hshorter⟩ := hnext.2 hlong
      refine ⟨a :: used, by rw [List.cons_append, ← hused], hdone, by rwa [hflatten], ?_⟩
      intro shorter more hsplit hmore
      rw [hflatten]
      cases shorter with
      | nil =>
        simp only [List.flatten_nil, List.length_nil]
        omega
      | cons b shorter =>
        cases hsplit
        exact hshorter shorter more rfl hmore

/-! ## A whole message -/

/-- A message with content of `n` bytes, in any reads, with whatever comes behind it. The content is
everything behind the head up to the end of the read in which the length is reached. -/
theorem ReadsHead.feedAll_fixed (h : ReadsHead reserve parseStartLine p head behind)
    (hfixed : Fixed parseContent n behind) (hn : n ≠ kInvalidLength) (hcontent : behind.content = [])
    {data : Bytes} (reads : List Bytes) (hreads : reads.flatten = head ++ data) :
    let result := Pieces.feedAll (readWith reserve parseStartLine parseContent) p reads
    (data.length < n → ∃ q, result = (.more q, [])) ∧
      (n ≤ data.length → ∃ used, reads = used ++ result.2 ∧
        result.1 = .done (behind.taking (used.flatten.drop head.length)).finish ∧
        head.length + n ≤ used.flatten.length ∧
        ∀ shorter rest, used = shorter ++ rest → rest ≠ [] →
          shorter.flatten.length < head.length + n) := by
  have hsame : ∀ e, e <+: data → readWith reserve parseStartLine parseContent behind e =
      contentWith parseContent behind e := by
    intro e _
    have hwith : contentWith parseContent behind e =
        outcome (.ok ((behind.withPending e).parseFixedContent [])) :=
      congrArg outcome (hfixed.content behind.content e [])
    have hfixed' : Fixed parseContent n (behind.withPending e) :=
      ⟨hfixed.headers, hfixed.waiting, hfixed.parsed, hfixed.length, hfixed.content⟩
    rw [hfixed.read reserve parseStartLine hn h.behind_pending, hwith, hfixed'.outcome hn,
      withPending_pending, List.append_nil]
    rfl
  obtain ⟨front, last, rest, e, hsplit, he, hfront, hall⟩ := h.feedAll hsame reads hreads
  have hdata : (e :: rest).flatten = data := by
    rw [hsplit, List.flatten_append, List.flatten_cons, ← List.append_assoc, he,
      List.append_assoc] at hreads
    exact List.append_cancel_left hreads
  have hrest := hfixed.feedAll reserve parseStartLine hn
    h.behind_pending e rest
  simp only [hcontent, List.length_nil, Nat.zero_add, hdata, ← hall] at hrest
  refine ⟨hrest.1, fun hlong => ?_⟩
  obtain ⟨used, hused, hdone, hreached, hshorter⟩ := hrest.2 hlong
  have hflatten : ∀ more : List Bytes,
      (front ++ last :: more).flatten = head ++ (e :: more).flatten := by
    intro more
    rw [List.flatten_append, List.flatten_cons, List.flatten_cons, ← List.append_assoc, he,
      List.append_assoc]
  refine ⟨front ++ last :: used, ?_, ?_, ?_, ?_⟩
  · rw [List.append_assoc, List.cons_append, ← hused]
    exact hsplit
  · rw [hflatten, List.drop_left]
    exact hdone
  · rw [hflatten, List.length_append]
    omega
  · intro shorter more hused' hmore
    have hleads : shorter <+: front ++ last :: used := ⟨more, hused'.symm⟩
    by_cases hlong : front.length < shorter.length
    · obtain ⟨u, rfl, hu⟩ := prefix_split hleads (by omega)
      cases u with
      | nil => simp at hlong
      | cons a u =>
        rw [List.append_assoc, List.append_cancel_left_eq] at hused'
        cases hused'
        rw [hflatten, List.length_append]
        have hless := hshorter u more rfl hmore
        omega
    · have hinside : shorter <+: front :=
        List.prefix_of_prefix_length_le hleads (List.prefix_append _ _) (by omega)
      obtain ⟨v, rfl⟩ := hinside
      rw [List.flatten_append, List.length_append] at hfront
      omega

end FaceDetection.Webcc.Parser

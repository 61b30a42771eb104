import FaceDetection.Webcc.HeaderScan

/-!
# Chunked content

A machine that reads chunks byte after byte, and the parser as a refinement of it. The two part where
a read ends inside a chunk-size line: the parser then takes the marker for "no size yet" for a size.
-/

open FaceDetection.Delimited FaceDetection.Pieces

namespace FaceDetection.Webcc

/-! ## The machine -/

/-- Where the machine is: in a chunk-size line, in the data of a chunk with some bytes left, in the
two bytes behind it, or at an end. `wrapped` and `overflow` are sizes so large that the parser's sum
of size and two wraps around. -/
inductive Phase where
  | size (line : Bytes)
  | data (left : Nat)
  | skip (left : Nat)
  | wrapped
  | overflow
  | ended
  | bad
  deriving DecidableEq

structure Chunks where
  phase : Phase
  content : Bytes
  deriving DecidableEq

namespace Chunks

def start : Chunks := { phase := .size [], content := [] }

/-- The phase after a chunk-size line. -/
def afterSize : Option Nat → Phase
  | none => .bad
  | some n =>
    if n = 0 then .ended
    else if n = kInvalidLength then .wrapped
    else if n = kInvalidLength - 1 then .overflow
    else .data n

def step (c : Chunks) (b : UInt8) : Chunks :=
  match c.phase with
  | .size line =>
    match cut kCRLF (line ++ [b]) with
    | none => { c with phase := .size (line ++ [b]) }
    | some p => { c with phase := afterSize (stoul (Parser.hexStr p.1) 16) }
  | .data left =>
    { phase := if left = 1 then .skip 2 else .data (left - 1), content := c.content ++ [b] }
  | .skip left => { c with phase := if left = 1 then .size [] else .skip (left - 1) }
  | .wrapped => { c with phase := .overflow }
  | .overflow | .ended | .bad => c

def run (c : Chunks) (s : Bytes) : Chunks := s.foldl step c

theorem run_append (c : Chunks) (s t : Bytes) : c.run (s ++ t) = (c.run s).run t :=
  List.foldl_append

theorem run_cons (c : Chunks) (b : UInt8) (s : Bytes) : c.run (b :: s) = (c.step b).run s := rfl

/-- The machine stays where it has ended. -/
theorem run_ended {c : Chunks} (h : c.phase = .ended ∨ c.phase = .bad ∨ c.phase = .overflow)
    (s : Bytes) : c.run s = c := by
  induction s with
  | nil => rfl
  | cons b s ih =>
    have hstep : c.step b = c := by
      unfold step
      rcases h with h | h | h <;> rw [h]
    rw [run_cons, hstep, ih]

theorem run_wrapped {c : Chunks} (h : c.phase = .wrapped) {s : Bytes} (hs : s ≠ []) :
    (c.run s).phase = .overflow := by
  obtain ⟨b, s, rfl⟩ := List.exists_cons_of_ne_nil hs
  have hstep : (c.step b).phase = .overflow := by
    unfold step
    rw [h]
  rw [run_cons, run_ended (Or.inr (Or.inr hstep)), hstep]

/-- A text without a whole line is kept. -/
theorem run_size {line s content : Bytes} (h : cut kCRLF (line ++ s) = none) :
    run { phase := .size line, content := content } s =
      { phase := .size (line ++ s), content := content } := by
  induction s generalizing line with
  | nil => simp [run]
  | cons b s ih =>
    have hall : cut kCRLF ((line ++ [b]) ++ s) = none := by simpa using h
    have hline : cut kCRLF (line ++ [b]) = none := by
      cases hcut : cut kCRLF (line ++ [b]) with
      | none => rfl
      | some p =>
        rw [cut_append hcut] at hall
        cases hall
    rw [run_cons]
    have hstep : step { phase := .size line, content := content } b =
        { phase := .size (line ++ [b]), content := content } := by
      simp only [step, hline]
    rw [hstep, ih hall]
    simp

/-- A whole line ends with its line feed. -/
theorem run_line {line content : Bytes} (h : IsRecord kCRLF line) (s : Bytes) :
    run { phase := .size [], content := content } (line ++ kCRLF ++ s) =
      run { phase := afterSize (stoul (Parser.hexStr line) 16), content := content } s := by
  have hopen : cut kCRLF ([] ++ (line ++ [13])) = none := by
    cases hcut : cut kCRLF (line ++ [13]) with
    | none => exact hcut
    | some p =>
      -- A line that ended here would end before its own delimiter.
      have hrecord : cut kCRLF (line ++ [13] ++ [10]) = some (line, []) := by
        simpa [IsRecord, kCRLF] using h
      rw [cut_append hcut] at hrecord
      simp at hrecord
  have hlast : step { phase := .size (line ++ [13]), content := content } 10 =
      { phase := afterSize (stoul (Parser.hexStr line) 16), content := content } := by
    have hrecord : cut kCRLF (line ++ [13] ++ [10]) = some (line, []) := by
      simpa [IsRecord, kCRLF] using h
    simp only [step, hrecord]
  have hsplit : line ++ kCRLF ++ s = (line ++ [13]) ++ 10 :: s := by simp [kCRLF]
  rw [hsplit, run_append, run_size hopen, List.nil_append, run_cons, hlast]

/-- The data of a chunk, as long as it lasts. -/
theorem run_data {n : Nat} {content s : Bytes} (h : s.length < n) :
    run { phase := .data n, content := content } s =
      { phase := .data (n - s.length), content := content ++ s } := by
  induction s generalizing n content with
  | nil => simp [run]
  | cons b s ih =>
    rw [List.length_cons] at h
    have hstep : step { phase := .data n, content := content } b =
        { phase := .data (n - 1), content := content ++ [b] } := by
      simp only [step]
      rw [if_neg (by omega)]
    rw [run_cons, hstep, ih (by omega)]
    simp only [List.append_assoc, List.singleton_append, List.length_cons, Chunks.mk.injEq,
      Phase.data.injEq, and_true]
    omega

/-- The data of a chunk to its end. -/
theorem run_data_all (content : Bytes) {s : Bytes} (h : s ≠ []) :
    run { phase := .data s.length, content := content } s =
      { phase := .skip 2, content := content ++ s } := by
  obtain ⟨front, b, rfl⟩ : ∃ front b, s = front ++ [b] :=
    ⟨s.dropLast, s.getLast h, (List.dropLast_concat_getLast h).symm⟩
  have hlen : (front ++ [b]).length - front.length = 1 := by simp
  rw [run_append, run_data (by simp), hlen]
  simp [run, step]

/-- A whole chunk, with the two bytes behind it. -/
theorem run_chunk (content : Bytes) {data : Bytes} (h : data ≠ []) (a b : UInt8) (s : Bytes) :
    run { phase := .data data.length, content := content } (data ++ a :: b :: s) =
      run { phase := .size [], content := content ++ data } s := by
  rw [run_append, run_data_all content h]
  rfl

/-! ### Reads -/

/-- How the machine fails at the end of a read. -/
inductive Error where
  | badSize
  | lengthError
  deriving DecidableEq

/-- The end of a read: a chunk-size line that has begun is a fault, and a size that wrapped around is
forgotten. -/
def settle (c : Chunks) : Outcome Chunks Error :=
  match c.phase with
  | .ended => .done c
  | .bad => .fail .badSize
  | .overflow => .fail .lengthError
  | .size [] | .wrapped => .more { c with phase := .size [] }
  | .size (_ :: _) => .fail .lengthError
  | .data _ | .skip _ => .more c

def read (c : Chunks) (data : Bytes) : Outcome Chunks Error := (c.run data).settle

end Chunks

/-! ## The parser -/

theorem stoul_lt {str : Bytes} {base n : Nat} (h : stoul str base = some n) : n < 2 ^ 64 := by
  unfold stoul at h
  simp only at h
  split_ifs at h with hdigits hsign
  · cases h
    exact Nat.mod_lt _ (by norm_num)
  · cases h
    omega

namespace Parser

variable {M D : Type} [IsMessage M]

/-- A chunk size that is neither the end, nor the marker for "no size yet", nor wraps around with the
two bytes behind the chunk. -/
def Sized (n : Nat) : Prop := 0 < n ∧ n < kInvalidLength - 1

/-- Where the machine is at the start of the pending data. -/
def chunksBefore (p : Parser M D) : Chunks :=
  { phase := if p.chunk_size = kInvalidLength then .size [] else .data p.chunk_size
    content := p.content }

/-- Where the machine is at the end of the pending data. -/
def chunks (p : Parser M D) : Chunks := p.chunksBefore.run p.pending_data

/-- `q`, on the way from `p`, can go on with its pending data and `text` behind it: neither is longer
than a string can be. -/
structure InChunks (p : Parser M D) (text : Bytes) (q : Parser M D) : Prop where
  only : ChunksOnly p q
  size : q.chunk_size = kInvalidLength ∨ Sized q.chunk_size
  room : q.pending_data.length + text.length < kInvalidLength - 1

/-- `q` waits where the machine is at `c`. -/
structure Follows (p : Parser M D) (text : Bytes) (q : Parser M D) (c : Chunks) : Prop where
  inChunks : InChunks p text q
  chunks : q.chunks = c
  pending : q.chunk_size = kInvalidLength → q.pending_data = []

/-- `q` has finished with the content of the machine. -/
def FinishedWith (p q : Parser M D) (c : Chunks) : Prop :=
  ∃ q₀, ChunksOnly p q₀ ∧ q₀.content = c.content ∧ q = q₀.finish

def SameFailure (p : Parser M D) : Failure M D → Chunks.Error → Prop
  | .rejected message derived chunked, e =>
    message = p.message ∧ derived = p.derived ∧ chunked = p.chunked ∧ e = .badSize
  | .crash crash, e => crash = .lengthError ∧ e = .lengthError

/-- The outcomes of a read agree. -/
abbrev Agree (p : Parser M D) (text : Bytes) :
    Outcome (Parser M D) (Failure M D) → Outcome Chunks Chunks.Error → Prop :=
  Outcome.Rel (Follows p text) (FinishedWith p) (SameFailure p)

/-! ### One round -/

theorem takeChunk_sized {q : Parser M D} (hsize : Sized q.chunk_size) :
    takeChunk q =
      if q.chunk_size + 2 ≤ q.pending_data.length then
        .again { q with
          content := q.content ++ q.pending_data.take q.chunk_size
          pending_data := q.pending_data.drop (q.chunk_size + 2)
          chunk_size := kInvalidLength }
      else if q.pending_data.length < q.chunk_size then
        .leave (.ok (true, { q with
          content := q.content ++ q.pending_data
          chunk_size := q.chunk_size - q.pending_data.length
          pending_data := [] }))
      else .leave (.ok (true, q)) := by
  unfold Sized kInvalidLength at hsize
  have hsum : (q.chunk_size + 2) % 2 ^ 64 = q.chunk_size + 2 := Nat.mod_eq_of_lt (by omega)
  unfold takeChunk appendContent
  simp only [hsum]
  rw [if_neg (by omega)]
  by_cases hwhole : q.chunk_size + 2 ≤ q.pending_data.length
  · have hfits : q.chunk_size ≤ q.pending_data.length := by omega
    simp only [if_pos hwhole, if_pos hfits, hsum]
  · simp only [if_neg hwhole]

/-- The marker taken for a size: the sum with two is one. -/
theorem takeChunk_marker {q : Parser M D} (hsize : q.chunk_size = kInvalidLength)
    (hroom : q.pending_data.length < kInvalidLength - 1) :
    takeChunk q =
      if q.pending_data = [] then .leave (.ok (true, q)) else .leave (.error .lengthError) := by
  unfold takeChunk appendContent
  simp only [hsize]
  unfold kInvalidLength at hroom hsize ⊢
  rw [if_neg (by norm_num)]
  by_cases hpending : q.pending_data = []
  · obtain ⟨message, pending_data, content_length, content, start_line_parsed,
      content_length_parsed, header_ended, chunked, chunk_size, finished, derived⟩ := q
    simp only at hpending hsize
    subst hpending hsize
    simp
  · have hpos := List.length_pos_of_ne_nil hpending
    rw [if_pos (by omega), if_neg hpending, if_neg (by omega)]

/-- A size whose sum with two is zero. -/
theorem takeChunk_overflow {q : Parser M D} (hsize : q.chunk_size = kInvalidLength - 1)
    (hroom : q.pending_data.length < kInvalidLength - 1) :
    takeChunk q = .leave (.error .lengthError) := by
  unfold takeChunk appendContent
  simp only [hsize]
  unfold kInvalidLength at hroom ⊢
  rw [if_neg (by norm_num), if_pos (by norm_num), if_neg (by omega)]

omit [IsMessage M] in
theorem chunks_marker {q : Parser M D} (hsize : q.chunk_size = kInvalidLength) :
    q.chunks = Chunks.run { phase := .size [], content := q.content } q.pending_data := by
  unfold chunks chunksBefore
  rw [if_pos hsize]

omit [IsMessage M] in
theorem chunks_sized {q : Parser M D} (hsize : Sized q.chunk_size) :
    q.chunks = Chunks.run { phase := .data q.chunk_size, content := q.content } q.pending_data := by
  have hmarker : q.chunk_size ≠ kInvalidLength := by
    unfold Sized at hsize
    omega
  unfold chunks chunksBefore
  rw [if_neg hmarker]

/-- What a round of `q` does: it goes on where the machine is, or leaves as the machine settles. -/
def RoundFollows (p : Parser M D) (text : Bytes) (q : Parser M D) :
    Round (Parser M D) (Except Crash (Bool × Parser M D)) → Prop
  | .again q' =>
    InChunks p text q' ∧ q'.chunks = q.chunks ∧ q'.pending_data.length < q.pending_data.length
  | .leave r => Agree p text (outcome r) q.chunks.settle

variable {p q : Parser M D} {text : Bytes}

/-- A parser that waits agrees with a machine that settles where it is. -/
theorem agree_more {r : Parser M D} {c : Chunks} (hp : p.finished = false)
    (hr : Follows p text r c) : Agree p text (outcome (.ok (true, r))) (.more c) := by
  rw [outcome_more (hr.inChunks.only.finished.trans hp)]
  exact .more hr

theorem takeChunk_spec (hp : p.finished = false) (hq : InChunks p text q)
    (hsize : Sized q.chunk_size) : RoundFollows p text q (takeChunk q) := by
  have hchunks := chunks_sized hsize
  have hroom := hq.room
  rw [takeChunk_sized hsize]
  split_ifs with hwhole hshort
  · -- The chunk and the two bytes behind it are there.
    obtain ⟨a, b, rest, hrest⟩ : ∃ a b rest, q.pending_data.drop q.chunk_size = a :: b :: rest := by
      match hdrop : q.pending_data.drop q.chunk_size with
      | a :: b :: rest => exact ⟨a, b, rest, rfl⟩
      | [] | [_] =>
        have hlen := congrArg List.length hdrop
        simp only [List.length_drop, List.length_nil, List.length_cons] at hlen
        omega
    have hlen : (q.pending_data.take q.chunk_size).length = q.chunk_size := by
      rw [List.length_take]
      omega
    have hfront : q.pending_data.take q.chunk_size ≠ [] := by
      apply List.ne_nil_of_length_pos
      rw [hlen]
      exact hsize.1
    have hdrop : q.pending_data.drop (q.chunk_size + 2) = rest := by
      rw [← List.drop_drop, hrest]
      rfl
    have hrun : q.chunks = Chunks.run
        { phase := .size [], content := q.content ++ q.pending_data.take q.chunk_size } rest := by
      have hchunk := Chunks.run_chunk q.content hfront a b rest
      rwa [hlen, ← hrest, List.take_append_drop, ← hchunks] at hchunk
    refine ⟨⟨hq.only.trans ⟨_, _, _, rfl⟩, Or.inl rfl, ?_⟩, ?_, ?_⟩
    · simp only [List.length_drop]
      omega
    · rw [chunks_marker rfl, hrun, hdrop]
    · simp only [List.length_drop]
      omega
  · -- The data goes on in the next read.
    rw [Chunks.run_data hshort] at hchunks
    have hleft : Sized (q.chunk_size - q.pending_data.length) := by
      unfold Sized at hsize ⊢
      omega
    rw [RoundFollows, hchunks]
    apply agree_more hp
    refine ⟨⟨hq.only.trans ⟨_, _, _, rfl⟩, Or.inr hleft, ?_⟩, ?_, fun _ => rfl⟩
    · simp only [List.length_nil]
      omega
    · rw [chunks_sized hleft]
      rfl
  · -- Of the two bytes behind the data at most one is there.
    have hsettle : q.chunks.settle = .more q.chunks := by
      have hlen : (q.pending_data.take q.chunk_size).length = q.chunk_size := by
        rw [List.length_take]
        omega
      have hfront : q.pending_data.take q.chunk_size ≠ [] := by
        apply List.ne_nil_of_length_pos
        rw [hlen]
        exact hsize.1
      have hdata := Chunks.run_data_all q.content hfront
      rw [hlen] at hdata
      rw [hchunks, ← List.take_append_drop q.chunk_size q.pending_data, Chunks.run_append, hdata]
      match hdrop : q.pending_data.drop q.chunk_size with
      | [] | [_] => rfl
      | _ :: _ :: _ =>
        have hlong := congrArg List.length hdrop
        simp only [List.length_drop, List.length_cons] at hlong
        omega
    rw [RoundFollows, hsettle]
    apply agree_more hp
    refine ⟨hq, rfl, fun hmarker => ?_⟩
    unfold Sized at hsize
    omega

theorem RoundFollows.of_chunks {q' : Parser M D}
    {r : Round (Parser M D) (Except Crash (Bool × Parser M D))} (h : RoundFollows p text q' r)
    (hchunks : q'.chunks = q.chunks) (hlen : q'.pending_data.length ≤ q.pending_data.length) :
    RoundFollows p text q r := by
  cases r with
  | again q'' =>
    obtain ⟨hq'', hchunks'', hless⟩ := h
    exact ⟨hq'', hchunks''.trans hchunks, by omega⟩
  | leave r =>
    rw [RoundFollows, hchunks] at h
    exact h

theorem chunkedRound_spec (hp : p.finished = false) (hq : InChunks p text q) :
    RoundFollows p text q (chunkedRound q) := by
  rcases hq.size with hmarker | hsize
  · have hchunks := chunks_marker hmarker
    have hroom : q.pending_data.length < kInvalidLength - 1 := by
      have := hq.room
      omega
    rw [chunkedRound_eq, if_pos hmarker]
    unfold parseChunkSize
    cases hcut : cut kCRLF q.pending_data with
    | none =>
      -- Without a line the marker is taken for a size.
      rw [Chunks.run_size (by simpa using hcut)] at hchunks
      simp only [Bool.true_eq_false, if_false]
      rw [takeChunk_marker hmarker hroom]
      cases hpending : q.pending_data with
      | nil =>
        rw [if_pos rfl, RoundFollows, hchunks, hpending]
        exact agree_more hp ⟨hq, by rw [hchunks, hpending]; rfl, fun _ => hpending⟩
      | cons b s =>
        rw [if_neg (by simp), RoundFollows, hchunks, hpending]
        exact .fail ⟨rfl, rfl⟩
    | some c =>
      have hrecord := isRecord_of_cut hcut
      rw [cut_eq_append hcut, Chunks.run_line hrecord] at hchunks
      have hlen := cut_length hcut
      simp only
      cases hsize : stoul (hexStr c.1) 16 with
      | none =>
        rw [hsize, Chunks.afterSize, Chunks.run_ended (Or.inr (Or.inl rfl))] at hchunks
        rw [if_pos rfl, RoundFollows, hchunks]
        obtain ⟨_, _, _, honly⟩ := hq.only
        exact .fail ⟨by rw [honly], by rw [honly], by rw [honly], rfl⟩
      | some n =>
        have hbound := stoul_lt hsize
        rw [hsize] at hchunks
        simp only [Bool.true_eq_false, if_false]
        by_cases hzero : n = 0
        · subst hzero
          rw [Chunks.afterSize, if_pos rfl, Chunks.run_ended (Or.inl rfl)] at hchunks
          rw [takeChunk, if_pos rfl, RoundFollows, hchunks, outcome_finish]
          exact .done ⟨_, hq.only.trans ⟨_, _, _, rfl⟩, rfl, rfl⟩
        by_cases hwrapped : n = kInvalidLength
        · rw [Chunks.afterSize, if_neg hzero, if_pos hwrapped] at hchunks
          rw [takeChunk_marker hwrapped (by simp only; omega)]
          simp only
          split_ifs with hrest
          · rw [RoundFollows, hchunks, hrest]
            apply agree_more hp
            refine ⟨⟨hq.only.trans ⟨_, _, _, rfl⟩, Or.inl hwrapped, ?_⟩, ?_, fun _ => rfl⟩
            · have := hq.room
              simp only [List.length_nil]
              omega
            · rw [chunks_marker hwrapped]
              rfl
          · rw [RoundFollows, hchunks, Chunks.settle, Chunks.run_wrapped rfl hrest]
            exact .fail ⟨rfl, rfl⟩
        by_cases hoverflow : n = kInvalidLength - 1
        · rw [Chunks.afterSize, if_neg hzero, if_neg hwrapped, if_pos hoverflow,
            Chunks.run_ended (Or.inr (Or.inr rfl))] at hchunks
          rw [takeChunk_overflow hoverflow (by simp only; omega), RoundFollows, hchunks]
          exact .fail ⟨rfl, rfl⟩
        · have hsized : Sized n := by
            unfold Sized kInvalidLength at *
            omega
          have hsame : chunks { q with pending_data := c.2, chunk_size := n } = q.chunks := by
            rw [chunks_sized hsized, hchunks, Chunks.afterSize, if_neg hzero, if_neg hwrapped,
              if_neg hoverflow]
          have hnext : InChunks p text { q with pending_data := c.2, chunk_size := n } := by
            refine ⟨hq.only.trans ⟨_, _, _, rfl⟩, Or.inr hsized, ?_⟩
            have := hq.room
            simp only
            omega
          exact (takeChunk_spec hp hnext hsized).of_chunks hsame (by simp only; omega)
  · have hmarker : q.chunk_size ≠ kInvalidLength := by
      unfold Sized at hsize
      omega
    rw [chunkedRound_eq, if_neg hmarker]
    exact takeChunk_spec hp hq hsize

/-! ### All rounds, and all reads -/

/-- The run lemma: the loop leaves, and as the machine settles. -/
theorem chunked_rounds (hp : p.finished = false) (hq : InChunks p text q) :
    ∃ r, rounds chunkedRound (q.pending_data.length + 2) q = some r ∧
      Agree p text (outcome r) q.chunks.settle := by
  have hround : ∀ q', InChunks p text q' → RoundFollows p text q' (chunkedRound q') :=
    fun q' hq' => chunkedRound_spec hp hq'
  have hless : ∀ q' q'', InChunks p text q' → chunkedRound q' = .again q'' →
      InChunks p text q'' ∧ q''.pending_data.length < q'.pending_data.length := by
    intro q' q'' hq' hagain
    have hspec := hround q' hq'
    rw [hagain] at hspec
    exact ⟨hspec.1, hspec.2.2⟩
  obtain ⟨r, hr⟩ := Leaves.rounds_of_measure (fun q' : Parser M D => q'.pending_data.length) hless
    (q.pending_data.length + 2) hq (by simp)
  refine ⟨r, hr, ?_⟩
  apply (Leaves.of_rounds hr).result (I := fun q' => InChunks p text q' ∧ q'.chunks = q.chunks)
    (Q := fun r => Agree p text (outcome r) q.chunks.settle) ⟨hq, rfl⟩
  · rintro q' q'' ⟨hq', hsame⟩ hagain
    have hspec := hround q' hq'
    rw [hagain] at hspec
    exact ⟨hspec.1, hspec.2.1.trans hsame⟩
  · rintro q' r' ⟨hq', hsame⟩ hleave
    have hspec := hround q' hq'
    rw [hleave, RoundFollows, hsame] at hspec
    exact hspec

/-- A read of chunked content. -/
def readChunks (p : Parser M D) (data : Bytes) : Outcome (Parser M D) (Failure M D) :=
  outcome (p.parseChunkedContent data)

/-- Where no chunk size is known, no data is pending; so the machine goes on where it was. -/
theorem readChunks_agree (hp : p.finished = false) (data : Bytes) {c : Chunks}
    (hq : Follows p (data ++ text) q c) : Agree p text (readChunks q data) (c.read data) := by
  have hnext : InChunks p text (q.withPending (q.pending_data ++ data)) := by
    refine ⟨hq.inChunks.only.trans ⟨_, _, _, rfl⟩, hq.inChunks.size, ?_⟩
    have := hq.inChunks.room
    simp only [List.length_append, withPending_pending] at this ⊢
    omega
  have hchunks : (q.withPending (q.pending_data ++ data)).chunks = c.run data := by
    rw [← hq.chunks]
    exact Chunks.run_append _ _ _
  obtain ⟨r, hr, hagree⟩ := chunked_rounds hp hnext
  have hread : readChunks q data = outcome r := by
    have hparse : q.parseChunkedContent data = (some r).getD (.error .fuel) := by
      rw [← hr]
      rfl
    rw [readChunks, hparse, Option.getD_some]
  rw [hread, Chunks.read, ← hchunks]
  exact hagree

/-- The reads of chunked content, by a parser that does nothing else with them, and by the machine. -/
theorem feedAll_agree {feed : Parser M D → Bytes → Outcome (Parser M D) (Failure M D)}
    (hfeed : ∀ q a, ChunksOnly p q → feed q a = readChunks q a) (hp : p.finished = false)
    (hsize : p.chunk_size = kInvalidLength) (hpending : p.pending_data = [])
    (hcontent : p.content = []) (reads : List Bytes)
    (hroom : reads.flatten.length < kInvalidLength - 1) :
    Agree p [] (feedAll feed p reads).1 (feedAll Chunks.read Chunks.start reads).1 := by
  have hstart : Follows p reads.flatten p Chunks.start := by
    refine ⟨⟨⟨_, _, _, rfl⟩, Or.inl hsize, ?_⟩, ?_, fun _ => hpending⟩
    · rw [hpending, List.length_nil]
      omega
    · rw [chunks_marker hsize, hpending, hcontent]
      rfl
  refine (feedAll_rel (R := Follows p) ?_ reads hstart).1
  intro a b q c hq
  rw [hfeed q a hq.inChunks.only]
  exact readChunks_agree hp a hq

end Parser

end FaceDetection.Webcc

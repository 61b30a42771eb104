import FaceDetection.Webcc.Chunked
import FaceDetection.Webcc.Head

/-!
# A chunked request

Where its reads may be cut: anywhere but inside a chunk-size line.
-/

open FaceDetection.Delimited FaceDetection.Pieces

namespace FaceDetection.Webcc

/-! ## Chunked text -/

structure Chunk where
  line : Bytes
  data : Bytes

/-- The line gives the size of the data, and the data is not empty. -/
structure Chunk.Valid (c : Chunk) : Prop where
  record : IsRecord kCRLF c.line
  size : stoul (Parser.hexStr c.line) 16 = some c.data.length
  data : c.data ≠ []
  bound : c.data.length < kInvalidLength - 1

def Chunk.text (c : Chunk) : Bytes := c.line ++ kCRLF ++ c.data ++ kCRLF

namespace Chunks

/-- The line of the last chunk, which has no data. -/
structure LastLine (last : Bytes) : Prop where
  record : IsRecord kCRLF last
  size : stoul (Parser.hexStr last) 16 = some 0

def text (last : Bytes) (cs : List Chunk) : Bytes := cs.flatMap Chunk.text ++ last ++ kCRLF

def body (cs : List Chunk) : Bytes := cs.flatMap Chunk.data

/-- A cut behind `n` bytes falls inside a chunk-size line. -/
def insideLine (last : Bytes) : List Chunk → Nat → Bool
  | [], n => 0 < n ∧ n < last.length + 2
  | c :: cs, n =>
    (0 < n ∧ n < c.line.length + 2) ∨
      (c.text.length ≤ n ∧ insideLine last cs (n - c.text.length) = true)

variable {last : Bytes}

theorem text_cons (c : Chunk) (cs : List Chunk) : text last (c :: cs) = c.text ++ text last cs := by
  simp [text]

theorem Chunk.text_length (c : Chunk) : c.text.length = c.line.length + c.data.length + 4 := by
  simp only [Chunk.text, List.length_append, kCRLF, List.length_cons, List.length_nil]
  omega

/-- There is no cut inside a line behind the text. -/
theorem insideLine_lt {cs : List Chunk} {n : Nat} (h : insideLine last cs n = true) :
    n < (text last cs).length := by
  induction cs generalizing n with
  | nil =>
    simp only [insideLine, decide_eq_true_eq] at h
    simp only [text, List.flatMap_nil, List.nil_append, List.length_append, kCRLF,
      List.length_cons, List.length_nil]
    omega
  | cons c cs ih =>
    simp only [insideLine, decide_eq_true_eq] at h
    have hlen := Chunk.text_length c
    rw [text_cons, List.length_append]
    rcases h with h | ⟨hle, h⟩
    · omega
    · have := ih h
      omega

/-- A part of a chunk-size line. -/
theorem run_part {line : Bytes} (h : IsRecord kCRLF line) (content : Bytes) {s t : Bytes}
    (hs : s <+: line ++ kCRLF ++ t) (hlen : s.length < line.length + 2) :
    run { phase := .size [], content := content } s = { phase := .size s, content := content } := by
  have hcut : cut kCRLF ([] ++ s) = none := by
    cases hcut : cut kCRLF s with
    | none => exact hcut
    | some p =>
      -- The line would end in it, and earlier than it does.
      obtain ⟨u, hu⟩ := hs
      have hwhole := cut_append hcut u
      rw [hu, h.cut_eq] at hwhole
      cases hwhole
      have := cut_length hcut
      simp only [kCRLF, List.length_cons, List.length_nil] at this
      omega
  rw [run_size hcut, List.nil_append]

theorem afterSize_chunk {c : Chunk} (hc : c.Valid) :
    afterSize (stoul (Parser.hexStr c.line) 16) = .data c.data.length := by
  have hpos := List.length_pos_of_ne_nil hc.data
  have hbound := hc.bound
  rw [hc.size, afterSize, if_neg (by omega), if_neg (by omega), if_neg (by omega)]

/-- A part of a chunk that has its whole line. -/
theorem settle_part {c : Chunk} (hc : c.Valid) (content : Bytes) {s t : Bytes}
    (hs : s <+: c.text ++ t) (hline : c.line.length + 2 ≤ s.length)
    (hlen : s.length < c.text.length) :
    (run { phase := .size [], content := content } s).settle =
      .more (run { phase := .size [], content := content } s) := by
  have htext : c.text ++ t = c.line ++ kCRLF ++ (c.data ++ (kCRLF ++ t)) := by
    simp only [Chunk.text, List.append_assoc]
  rw [htext] at hs
  obtain ⟨u, rfl, hu⟩ := prefix_split hs (by simpa [kCRLF] using hline)
  rw [Chunk.text_length, List.length_append, List.length_append, kCRLF, List.length_cons,
    List.length_singleton] at hlen
  rw [run_line hc.record, afterSize_chunk hc]
  by_cases hdata : u.length < c.data.length
  · rw [run_data hdata]
    rfl
  · obtain ⟨v, rfl, -⟩ := prefix_split hu (by omega)
    rw [run_append, run_data_all content hc.data]
    rw [List.length_append] at hlen
    rcases v with _ | ⟨a, _ | ⟨b, v⟩⟩
    · rfl
    · rfl
    · simp only [List.length_cons] at hlen
      omega

theorem settle_line (s content : Bytes) :
    settle { phase := .size s, content := content } =
      if s = [] then .more { phase := .size s, content := content } else .fail .lengthError := by
  cases s <;> rfl

/-- Where the machine settles at a cut. -/
theorem settle_run (hlast : LastLine last) (cs : List Chunk) (hcs : ∀ c ∈ cs, c.Valid)
    (content : Bytes) {s tail : Bytes} (hs : s <+: text last cs ++ tail) :
    let c := run { phase := .size [], content := content } s
    (insideLine last cs s.length = true → c.settle = .fail .lengthError) ∧
      (insideLine last cs s.length = false → s.length < (text last cs).length →
        c.settle = .more c) ∧
      ((text last cs).length ≤ s.length →
        c = { phase := .ended, content := content ++ body cs }) := by
  induction cs generalizing content s with
  | nil =>
    have htext : text last [] = last ++ kCRLF := rfl
    have hlen : (text last []).length = last.length + 2 := by simp [htext, kCRLF]
    simp only [insideLine, decide_eq_true_eq, decide_eq_false_iff_not, hlen]
    by_cases hshort : s.length < last.length + 2
    · rw [htext] at hs
      have hpart := run_part hlast.record content hs hshort
      rw [hpart, settle_line]
      refine ⟨fun h => if_neg (List.ne_nil_of_length_pos h.1), fun h _ => if_pos ?_, by omega⟩
      rw [← List.length_eq_zero_iff]
      omega
    · refine ⟨by omega, by omega, fun _ => ?_⟩
      obtain ⟨u, rfl, -⟩ := prefix_split hs (by omega)
      rw [htext, run_line hlast.record, hlast.size, afterSize, if_pos rfl, run_ended (Or.inl rfl)]
      simp [body]
  | cons c cs ih =>
    have hc := hcs c List.mem_cons_self
    have htail := fun c' hc' => hcs c' (List.mem_cons_of_mem c hc')
    have hlen := Chunk.text_length c
    rw [text_cons, List.append_assoc] at hs
    simp only [insideLine, decide_eq_true_eq, decide_eq_false_iff_not, text_cons,
      List.length_append]
    by_cases hline : s.length < c.line.length + 2
    · have hs' : s <+: c.line ++ kCRLF ++ (c.data ++ kCRLF ++ (text last cs ++ tail)) := by
        simpa only [Chunk.text, List.append_assoc] using hs
      rw [run_part hc.record content hs' hline, settle_line]
      refine ⟨fun h => if_neg ?_, fun h _ => if_pos ?_, by omega⟩
      · rintro rfl
        simp only [List.length_nil] at h
        omega
      · rw [← List.length_eq_zero_iff]
        omega
    by_cases hpart : s.length < c.text.length
    · refine ⟨by omega, fun _ _ => settle_part hc content hs (by omega) hpart, by omega⟩
    · obtain ⟨u, rfl, hu⟩ := prefix_split hs (by omega)
      have hrun : run { phase := .size [], content := content } (c.text ++ u) =
          run { phase := .size [], content := content ++ c.data } u := by
        have hchunk := run_chunk content hc.data 13 10 u
        rw [← afterSize_chunk hc, ← run_line hc.record] at hchunk
        simpa only [Chunk.text, kCRLF, List.append_assoc, List.cons_append, List.nil_append]
          using hchunk
      obtain ⟨hfail, hmore, hend⟩ := ih htail (content ++ c.data) hu
      rw [List.length_append] at hline hpart ⊢
      rw [hrun, Nat.add_sub_cancel_left]
      refine ⟨fun h => hfail ?_, fun h hless => hmore ?_ (Nat.lt_of_add_lt_add_left hless),
        fun hle => ?_⟩
      · rcases h with h | h
        · omega
        · exact h.2
      · cases hinside : insideLine last cs u.length with
        | false => rfl
        | true => exact absurd (Or.inr ⟨by omega, hinside⟩) h
      · rw [hend (Nat.le_of_add_le_add_left hle)]
        simp [body]

/-! ## Reads of chunked text -/

/-- The machine settles after every read up to the first cut inside a line, or up to the end. -/
theorem feedAll_text (hlast : LastLine last) {cs : List Chunk} (hcs : ∀ c ∈ cs, c.Valid)
    {tail : Bytes} (reads : List Bytes) {u : Bytes} (hreads : u ++ reads.flatten = text last cs ++ tail)
    (hu : (start.run u).settle = .more (start.run u)) :
    let result := (feedAll read (start.run u) reads).1
    ((∃ front, front <+: reads ∧ insideLine last cs (u ++ front.flatten).length = true) →
        result = .fail .lengthError) ∧
      ((∀ front, front <+: reads → insideLine last cs (u ++ front.flatten).length = false) →
        result = .done { phase := .ended, content := body cs }) := by
  induction reads generalizing u with
  | nil =>
    have hu_leads : u <+: text last cs ++ tail := ⟨[], by simpa using hreads⟩
    obtain ⟨hfail, -, hend⟩ := settle_run hlast cs hcs [] hu_leads
    constructor
    · rintro ⟨front, hfront, hinside⟩
      rw [List.prefix_nil.mp hfront, List.flatten_nil, List.append_nil] at hinside
      cases hu.symm.trans (hfail hinside)
    · intro _
      have hlen := congrArg List.length hreads
      simp only [List.flatten_nil, List.append_nil, List.length_append] at hlen
      have hended : start.run u = _ := hend (by omega)
      rw [hended] at hu
      cases hu
  | cons a reads ih =>
    have hreads' : (u ++ a) ++ reads.flatten = text last cs ++ tail := by
      rw [← hreads, List.flatten_cons, List.append_assoc]
    obtain ⟨hfail, hmore, hend⟩ := settle_run hlast cs hcs [] ⟨_, hreads'⟩
    have hread : (start.run u).read a = (start.run (u ++ a)).settle := by
      rw [read, run_append]
    have hcons : ∀ front, (u ++ (a :: front).flatten).length = (u ++ a ++ front.flatten).length := by
      intro front
      rw [List.flatten_cons, List.append_assoc]
    have hlong : ∀ front, front <+: a :: reads →
        insideLine last cs (u ++ front.flatten).length = true → ∃ front', front = a :: front' ∧
          front' <+: reads := by
      intro front hfront hinside
      cases front with
      | nil =>
        -- The machine would not have waited at the last cut.
        have hu_leads : u <+: text last cs ++ tail := ⟨_, hreads⟩
        rw [List.flatten_nil, List.append_nil] at hinside
        cases hu.symm.trans ((settle_run hlast cs hcs [] hu_leads).1 hinside)
      | cons b front' =>
        obtain ⟨rfl, hfront'⟩ := List.cons_prefix_cons.mp hfront
        exact ⟨front', rfl, hfront'⟩
    cases hinside : insideLine last cs (u ++ a).length with
    | true =>
      have hsettle := hread.trans (hfail hinside)
      rw [feedAll_cons_end (by simp [hsettle]), hsettle]
      refine ⟨fun _ => rfl, fun hnone => ?_⟩
      have hone := hnone [a] ⟨reads, rfl⟩
      rw [hcons, List.flatten_nil, List.append_nil, hinside] at hone
      cases hone
    | false =>
      by_cases hshort : (u ++ a).length < (text last cs).length
      · have hwait := hmore hinside hshort
        obtain ⟨hbad, hgood⟩ := ih hreads' hwait
        rw [feedAll_cons_more (hread.trans hwait)]
        constructor
        · rintro ⟨front, hfront, hcut⟩
          obtain ⟨front', rfl, hfront'⟩ := hlong front hfront hcut
          exact hbad ⟨front', hfront', by rwa [← hcons]⟩
        · intro hnone
          apply hgood
          intro front hfront
          rw [← hcons]
          exact hnone (a :: front) (List.cons_prefix_cons.mpr ⟨rfl, hfront⟩)
      · have hended : start.run (u ++ a) = _ := hend (by omega)
        have hsettle : (start.run u).read a = .done { phase := .ended, content := body cs } := by
          rw [hread, hended]
          rfl
        rw [feedAll_cons_end (by simp [hsettle]), hsettle]
        refine ⟨?_, fun _ => rfl⟩
        rintro ⟨front, hfront, hcut⟩
        obtain ⟨front', rfl, -⟩ := hlong front hfront hcut
        have hless := insideLine_lt hcut
        rw [hcons] at hless
        have hle := (List.prefix_append (u ++ a) front'.flatten).length_le
        omega

theorem insideLine_zero (cs : List Chunk) : insideLine last cs 0 = false := by
  cases cs with
  | nil => simp [insideLine]
  | cons c cs =>
    have hlen := Chunk.text_length c
    simp only [insideLine, decide_eq_false_iff_not]
    omega

end Chunks

/-! ## Reads of a chunked request -/

namespace RequestParser

variable {reserve : Nat → Bool} {start_line method target : Bytes} {es : List Header}
  {derived : FormState} {last : Bytes}

theorem read_chunks {p : RequestParser} (hended : p.header_ended = true)
    (hchunked : p.chunked = true) (data : Bytes) :
    read reserve p data = Parser.readChunks p data := by
  unfold read parse Parser.parse parseContent
  rw [if_pos hended, if_pos hchunked]
  rfl

theorem contentOf_chunks {p : RequestParser} (hchunked : p.chunked = true)
    (hpending : p.pending_data = []) (data : Bytes) :
    contentOf p data = Parser.readChunks p data := by
  unfold contentOf parseContent Parser.readChunks Parser.parseChunkedContent
  rw [if_pos (by simpa using hchunked)]
  simp only [Parser.withPending, List.append_nil, hpending, List.nil_append]

/-- A chunked request, with anything behind it. When a read ends inside a chunk-size line, the call
that parses it throws. When none does, the service gets the request with the data of the chunks. -/
theorem readAll_chunks (hline : RequestLine start_line method target)
    (hes : Readable reserve es) (hchunked : announcesChunks es = true)
    (hlast : Chunks.LastLine last) {cs : List Chunk} (hcs : ∀ c ∈ cs, c.Valid) {tail : Bytes}
    {reads : List Bytes}
    (hreads : reads.flatten = Parser.headText start_line es ++ (Chunks.text last cs ++ tail))
    (hroom : reads.flatten.length < kInvalidLength - 1) :
    let head := Parser.headText start_line es
    let result := (readAll reserve (fresh derived) reads).1
    let cutInLine := fun front : List Bytes =>
      Chunks.insideLine last cs (front.flatten.length - head.length)
    ((∃ front, front <+: reads ∧ cutInLine front = true) → result = .fail (.crash .lengthError)) ∧
      ((∀ front, front <+: reads → cutInLine front = false) → ∃ q, result = .done q ∧
        q.message = delivered (announced start_line method target es)
          ((contentLength es).getD kInvalidLength) (Chunks.body cs)) := by
  intro head result cutInLine
  let p := behindHead derived start_line method target es
  have hsame : ∀ e, read reserve p e = contentOf p e := fun e =>
    (read_chunks rfl hchunked e).trans (contentOf_chunks hchunked rfl e).symm
  obtain ⟨front, lastRead, rest, e, hsplit, he, hfront, hall⟩ :=
    (readsHead hline hes derived).feedAll (fun e _ => hsame e) reads hreads
  have htext : (e :: rest).flatten = Chunks.text last cs ++ tail := by
    have hwhole := hreads
    rw [hsplit, List.flatten_append, List.flatten_cons, ← List.append_assoc, he,
      List.append_assoc] at hwhole
    exact List.append_cancel_left hwhole
  have hcuts : (∃ f, f <+: reads ∧ cutInLine f = true) ↔
      ∃ f, f <+: e :: rest ∧ Chunks.insideLine last cs f.flatten.length = true := by
    rw [hsplit]
    exact cuts_behind he hfront (P := fun n => Chunks.insideLine last cs n = true)
      (by simp [Chunks.insideLine_zero])
  have hroom' : (e :: rest).flatten.length < kInvalidLength - 1 := by
    rw [hreads, ← htext, List.length_append] at hroom
    omega
  have hfeed : ∀ q a, Parser.ChunksOnly p q → read reserve q a = Parser.readChunks q a := by
    intro q a hq
    obtain ⟨_, _, _, rfl⟩ := hq
    exact read_chunks rfl hchunked a
  have hagree := Parser.feedAll_agree hfeed rfl rfl rfl rfl (e :: rest) hroom'
  obtain ⟨hbad, hgood⟩ := Chunks.feedAll_text hlast hcs (e :: rest) (u := []) htext rfl
  have hresult : result = (feedAll (read reserve) p (e :: rest)).1 := congrArg Prod.fst hall
  constructor
  · intro hcut
    have hfail : (feedAll Chunks.read Chunks.start (e :: rest)).1 = .fail .lengthError :=
      hbad (hcuts.mp hcut)
    rw [hfail] at hagree
    rw [hresult]
    generalize (feedAll (read reserve) p (e :: rest)).1 = outcome at hagree
    cases hagree with
    | @fail e _ hsame =>
      cases e with
      | rejected message derived chunked => cases hsame.2.2.2
      | crash crash => rw [hsame.1]
  · intro hnone
    have hdone : (feedAll Chunks.read Chunks.start (e :: rest)).1 =
        .done { phase := .ended, content := Chunks.body cs } := by
      apply hgood
      intro f hf
      by_contra hcut
      obtain ⟨g, hg, hcutInLine⟩ := hcuts.mpr ⟨f, hf, by simpa using hcut⟩
      rw [hnone g hg] at hcutInLine
      cases hcutInLine
    rw [hdone] at hagree
    rw [hresult]
    generalize (feedAll (read reserve) p (e :: rest)).1 = outcome at hagree
    cases hagree with
    | @done q _ hfinished =>
      obtain ⟨q₀, ⟨_, _, _, rfl⟩, hcontent, rfl⟩ := hfinished
      refine ⟨_, rfl, ?_⟩
      rw [finish_message, delivered]
      simp only at hcontent
      simp only [hcontent]
      rfl

/-- One chunk of three bytes, cut behind its line. -/
theorem readAll_chunks_three :
    let head := Parser.headText (ascii "POST /images HTTP/1.1") [(kTransferEncoding, ascii "chunked")]
    ∃ q, (readAll (fun _ => true) (fresh .start)
        [head, ascii "3\r\n", ascii "abc\r\n0\r\n\r\n"]).1 = .done q ∧
      q.message = delivered (announced (ascii "POST /images HTTP/1.1") (ascii "POST")
        (ascii "/images") [(kTransferEncoding, ascii "chunked")]) kInvalidLength (ascii "abc") := by
  intro head
  have hes : Readable (fun _ => true) [(kTransferEncoding, ascii "chunked")] := by
    constructor
    · decide
    · intro h hh
      rw [List.mem_singleton.mp hh]
      exact ⟨fun h => absurd h (by decide), fun h => absurd h (by decide)⟩
  have hlast : Chunks.LastLine (ascii "0") := ⟨by decide, by decide⟩
  have hcs : ∀ c ∈ [Chunk.mk (ascii "3") (ascii "abc")], c.Valid := by
    intro c hc
    rw [List.mem_singleton.mp hc]
    exact ⟨by decide, by decide, by decide, by decide⟩
  have hreads : [head, ascii "3\r\n", ascii "abc\r\n0\r\n\r\n"].flatten =
      head ++ (Chunks.text (ascii "0") [Chunk.mk (ascii "3") (ascii "abc")] ++ ascii "\r\n") := rfl
  have hcuts : ∀ front ∈ [head, ascii "3\r\n", ascii "abc\r\n0\r\n\r\n"].inits,
      Chunks.insideLine (ascii "0") [Chunk.mk (ascii "3") (ascii "abc")]
        (front.flatten.length - head.length) = false := by decide
  apply (readAll_chunks requestLine_post hes (by decide) hlast hcs hreads (by decide)).2
  intro front hfront
  exact hcuts front ((List.mem_inits _ _).mpr hfront)

end RequestParser

end FaceDetection.Webcc

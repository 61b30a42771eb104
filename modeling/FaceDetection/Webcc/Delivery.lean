import FaceDetection.Webcc.Head

/-!
# A request with a Content-Length

What reaches the service as the content: everything behind the headers up to the end of the read in
which the announced length is reached.
-/

open FaceDetection.Delimited FaceDetection.Pieces

namespace FaceDetection.Webcc.RequestParser

variable {reserve : Nat → Bool} {start_line method target : Bytes} {es : List Header} {n : Nat}

theorem fixed_behindHead (derived : FormState) (hplain : announcesChunks es = false)
    (hlength : contentLength es = some n) (hfixed : (contentType es).multipart = false) :
    Parser.Fixed parseContent n (behindHead derived start_line method target es) where
  headers := rfl
  waiting := rfl
  parsed := by simp [behindHead, hlength]
  length := by simp [behindHead, hlength]
  content := by
    intro content pending data
    unfold parseContent
    rw [if_neg, if_neg]
    · exact ne_true_of_eq_false hfixed
    · exact ne_true_of_eq_false hplain

/-- A request with a Content-Length of `n`, in any reads, with whatever comes behind it. Nothing is
done before its last byte has come. Then the service gets the request, with everything behind the
head up to the end of that read as its content. -/
theorem readAll_content (derived : FormState) (hline : RequestLine start_line method target)
    (hes : Readable reserve es) (hplain : announcesChunks es = false) (hlength : contentLength es = some n)
    (hn : n ≠ kInvalidLength) (hfixed : (contentType es).multipart = false) (data : Bytes)
    (reads : List Bytes) (hreads : reads.flatten = Parser.headText start_line es ++ data) :
    let head := Parser.headText start_line es
    let result := readAll reserve (fresh derived) reads
    (data.length < n → ∃ q, result = (.more q, [])) ∧
      (n ≤ data.length → ∃ used q, reads = used ++ result.2 ∧ result.1 = .done q ∧
        head.length + n ≤ used.flatten.length ∧
        (∀ shorter rest, used = shorter ++ rest → rest ≠ [] →
          shorter.flatten.length < head.length + n) ∧
        q.message = delivered (announced start_line method target es) n
          (used.flatten.drop head.length)) := by
  intro head result
  have hall := (readsHead hline hes derived).feedAll_fixed
    (fixed_behindHead derived hplain hlength hfixed) hn rfl reads hreads
  refine ⟨hall.1, fun hlong => ?_⟩
  obtain ⟨used, hused, hdone, hreached, hshorter⟩ := hall.2 hlong
  refine ⟨used, _, hused, hdone, hreached, hshorter, ?_⟩
  rw [finish_message]
  change (if used.flatten.drop head.length = [] then announced start_line method target es else
    { announced start_line method target es with
      content_length := (contentLength es).getD kInvalidLength
      content := used.flatten.drop head.length }) = _
  rw [hlength]
  rfl

/-- Three bytes announced; the read that brings the third brings a fourth. -/
theorem readAll_content_three :
    let head := Parser.headText (ascii "POST /images HTTP/1.1") [(kContentLength, ascii "3")]
    (readAll (fun _ => true) (fresh .start) [head, ascii "ab", ascii "cd"]).1.kind = .done () := by
  intro head
  have hes : Readable (fun _ => true) [(kContentLength, ascii "3")] := by
    constructor
    · decide
    · intro h hh
      rw [List.mem_singleton.mp hh]
      exact ⟨fun _ => ⟨3, by decide, rfl⟩, fun h => absurd h (by decide)⟩
  have hall := readAll_content (n := 3) .start requestLine_post hes rfl
    (by decide) (by decide) rfl (ascii "abcd") [head, ascii "ab", ascii "cd"] rfl
  obtain ⟨used, q, -, hdone, -⟩ := hall.2 (by decide)
  rw [hdone]
  rfl

end FaceDetection.Webcc.RequestParser

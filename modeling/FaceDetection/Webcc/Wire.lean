import FaceDetection.Webcc.Reads

/-!
# A message on the wire

What `Message::Prepare` writes of a message, a parser reads back, in whatever reads it comes: requests
and responses share this. `Sendable` says which messages are meant.
-/

open FaceDetection.Delimited FaceDetection.Pieces

namespace FaceDetection.Webcc

/-! ## Written messages -/

theorem trim_blank_digits {s : Bytes} (h : ∀ c ∈ s, isDigit c = true) : trim (ch ' ' :: s) = s := by
  have hspace : ∀ c ∈ s, ¬ isSpace c = true := fun c hc => by simp [(digit_start (h c hc)).1]
  have hleft : trimLeft (ch ' ' :: s) = s := by
    unfold trimLeft
    rw [List.dropWhile_cons_of_pos (by decide)]
    exact List.dropWhile_eq_self_iff.mpr fun hpos => hspace _ (List.getElem_mem hpos)
  unfold trim
  rw [hleft]
  exact List.rdropWhile_eq_self_iff.mpr fun hne => hspace _ (List.getLast_mem hne)

theorem written_contentLength (n : Nat) : Written (kContentLength, uintToString n) := by
  have hdigits := Json.isDigit_uintToString n
  have hcolon : ch ':' ∉ kContentLength := by decide
  have hkey : trim kContentLength = kContentLength := by decide
  refine ⟨?_, hcolon, hkey, trim_blank_digits hdigits⟩
  have hline : (13 : UInt8) ∉ kContentLength ++ ascii ": " := by decide
  apply isRecord_of_not_mem
  unfold headerLine
  simp only [List.mem_append, not_or] at hline ⊢
  exact ⟨hline, fun hmem => absurd (hdigits _ hmem) (by decide)⟩

/-- A message whose headers are read as they are written, and whose Content-Length is that of its
content. -/
structure Message.Sendable (reserve : Nat → Bool) (m : Message) : Prop where
  line : IsRecord kCRLF m.start_line
  started : m.start_line ≠ []
  written : ∀ h ∈ m.headers.entries, Written h
  accepted : ∀ h ∈ m.headers.entries, Accepted reserve h
  plain : announcesChunks m.headers.entries = false
  length : m.headers.get? kContentLength = some (uintToString m.content.length) ∨
    (m.content = [] ∧ m.headers.get? kContentLength = none)
  room : m.content.length < kInvalidLength

namespace Parser

variable {M D : Type} [IsMessage M] {reserve : Nat → Bool}
  {parseStartLine : Bytes → M → Option M}
  {parseContent : Parser M D → Bytes → Except Crash (Bool × Parser M D)}

/-- The message that arrives. -/
def received (message : M) (m : Message) : M :=
  IsMessage.withMessage message
    { IsMessage.message message with
      headers := (IsMessage.message message).headers.setAll m.headers.entries
      content_type := ((m.headers.get? kContentType).map ContentType.init).getD
        (IsMessage.message message).content_type
      content_length := if m.content = [] then (IsMessage.message message).content_length
        else m.content.length
      content := if m.content = [] then (IsMessage.message message).content else m.content }

variable {new message : M} {m : Message}

end Parser

end FaceDetection.Webcc

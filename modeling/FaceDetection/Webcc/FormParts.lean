import FaceDetection.Webcc.Head
import FaceDetection.Webcc.Message
import FaceDetection.Webcc.Wire

/-!
# A form, part by part

What `Request::Prepare` writes of a form, the rounds of `ParseMultipartContent` take apart again. The
conditions on a part say what the text format cannot carry.
-/

open FaceDetection.Delimited FaceDetection.Pieces

namespace FaceDetection.Webcc

/-! ## Content-Disposition -/

/-- A text that stays as it is between quotes. -/
structure QuotedText (s : Bytes) : Prop where
  semicolon : ch ';' ∉ s
  line : (13 : UInt8) ∉ s
  quotes : trimIf (ch '"') (ascii "\"" ++ s ++ ascii "\"") = s

theorem trim_quoted (s : Bytes) :
    trim (ascii "\"" ++ s ++ ascii "\"") = ascii "\"" ++ s ++ ascii "\"" := by
  unfold trim trimLeft
  have hleft : (ascii "\"" ++ s ++ ascii "\"").dropWhile isSpace =
      ascii "\"" ++ s ++ ascii "\"" := List.dropWhile_cons_of_neg (by decide)
  rw [hleft]
  exact List.rdropWhile_concat_neg _ _ _ (by decide)

theorem split2_attribute (key : Bytes) (heq : ch '=' ∉ key) (s : Bytes) :
    split2 (key ++ ascii "=" ++ (ascii "\"" ++ s ++ ascii "\"")) (ch '=') =
      some (trim key, ascii "\"" ++ s ++ ascii "\"") := by
  have hcut : cut [ch '='] (key ++ ascii "=" ++ (ascii "\"" ++ s ++ ascii "\"")) =
      some (key, ascii "\"" ++ s ++ ascii "\"") := (isRecord_of_not_mem (d := []) heq).cut_eq _
  unfold split2
  rw [hcut, Option.map_some, trim_quoted]

theorem contentDisposition_parts {parts : List Bytes} (hparts : ∀ part ∈ parts, ch ';' ∉ part) :
    contentDisposition ([ch ';'].intercalate (ascii "form-data" :: parts)) =
      dispositionLoop parts ([], []) := by
  have hsplit : ([ch ';'].intercalate (ascii "form-data" :: parts)).splitOn (ch ';') =
      ascii "form-data" :: parts := by
    apply List.splitOn_intercalate
    · intro part hpart
      rcases List.mem_cons.mp hpart with rfl | hpart
      · decide
      · exact hparts part hpart
    · exact List.cons_ne_nil _ _
  unfold contentDisposition
  rw [hsplit]
  exact if_pos rfl

/-- An attribute of the header, behind the semicolon. -/
def attributeText (key value : Bytes) : Bytes :=
  ascii " " ++ key ++ ascii "=" ++ (ascii "\"" ++ value ++ ascii "\"")

theorem dispositionLoop_name {s : Bytes} (hs : QuotedText s) (parts : List Bytes)
    (names : Bytes × Bytes) :
    dispositionLoop (attributeText (ascii "name") s :: parts) names =
      dispositionLoop parts (s, names.2) := by
  have hsplit : split2 (attributeText (ascii "name") s) (ch '=') =
      some (ascii "name", ascii "\"" ++ s ++ ascii "\"") :=
    split2_attribute (ascii " name") (by decide) s
  rw [dispositionLoop, hsplit]
  simp only [if_true, hs.quotes]

theorem dispositionLoop_filename {s : Bytes} (hs : QuotedText s) (parts : List Bytes)
    (names : Bytes × Bytes) :
    dispositionLoop (attributeText (ascii "filename") s :: parts) names =
      dispositionLoop parts (names.1, s) := by
  have hsplit : split2 (attributeText (ascii "filename") s) (ch '=') =
      some (ascii "filename", ascii "\"" ++ s ++ ascii "\"") :=
    split2_attribute (ascii " filename") (by decide) s
  have hother : ¬ ascii "filename" = ascii "name" := by decide
  rw [dispositionLoop, hsplit]
  simp only [if_neg hother, if_true, hs.quotes]

/-- What `SetHeaders` writes of the names. -/
def dispositionText (name file_name : Bytes) : Bytes :=
  ascii "form-data" ++
    (if name ≠ [] then ascii "; name=\"" ++ name ++ ascii "\"" else []) ++
    (if file_name ≠ [] then ascii "; filename=\"" ++ file_name ++ ascii "\"" else [])

theorem semicolon_attribute {key s : Bytes} (hkey : ch ';' ∉ key) (hs : QuotedText s) :
    ch ';' ∉ attributeText key s := by
  have hsemicolon := hs.semicolon
  have hends : ch ';' ∉ ascii " " ∧ ch ';' ∉ ascii "=" ∧ ch ';' ∉ ascii "\"" := by decide
  unfold attributeText
  simp only [List.mem_append, not_or]
  exact ⟨⟨⟨hends.1, hkey⟩, hends.2.1⟩, ⟨hends.2.2, hsemicolon⟩, hends.2.2⟩

/-- The names are read as they were written. -/
theorem contentDisposition_text {name file_name : Bytes} (hname : QuotedText name)
    (hfile : QuotedText file_name) :
    contentDisposition (dispositionText name file_name) = some (name, file_name) := by
  have hn : ch ';' ∉ attributeText (ascii "name") name := semicolon_attribute (by decide) hname
  have hf : ch ';' ∉ attributeText (ascii "filename") file_name := semicolon_attribute (by decide) hfile
  by_cases hname_nil : name = []
  · by_cases hfile_nil : file_name = []
    · subst hname_nil hfile_nil
      decide
    · have htext : dispositionText name file_name = [ch ';'].intercalate
          [ascii "form-data", attributeText (ascii "filename") file_name] := by
        simp [dispositionText, hname_nil, hfile_nil, attributeText, List.intercalate_cons_cons, ascii]
      rw [htext, contentDisposition_parts (by simpa using hf), dispositionLoop_filename hfile,
        hname_nil]
      rfl
  · by_cases hfile_nil : file_name = []
    · have htext : dispositionText name file_name = [ch ';'].intercalate
          [ascii "form-data", attributeText (ascii "name") name] := by
        simp [dispositionText, hname_nil, hfile_nil, attributeText, List.intercalate_cons_cons, ascii]
      rw [htext, contentDisposition_parts (by simpa using hn), dispositionLoop_name hname, hfile_nil]
      rfl
    · have htext : dispositionText name file_name = [ch ';'].intercalate
          [ascii "form-data", attributeText (ascii "name") name,
            attributeText (ascii "filename") file_name] := by
        simp [dispositionText, hname_nil, hfile_nil, attributeText, List.intercalate_cons_cons, ascii]
      rw [htext, contentDisposition_parts (by simpa using ⟨hn, hf⟩), dispositionLoop_name hname,
        dispositionLoop_filename hfile]
      rfl

/-! ## The headers of a part -/

theorem written_disposition {name file_name : Bytes} (hname : QuotedText name)
    (hfile : QuotedText file_name) :
    Written (kContentDisposition, dispositionText name file_name) := by
  have hcolon : ch ':' ∉ kContentDisposition := by decide
  have hkey : trim kContentDisposition = kContentDisposition := by decide
  refine ⟨?_, hcolon, hkey, ?_⟩
  · apply isRecord_of_not_mem
    have hn := hname.line
    have hf := hfile.line
    have hends : (13 : UInt8) ∉ kContentDisposition ∧ (13 : UInt8) ∉ ascii ": " ∧
        (13 : UInt8) ∉ ascii "form-data" ∧ (13 : UInt8) ∉ ascii "; name=\"" ∧
        (13 : UInt8) ∉ ascii "; filename=\"" ∧ (13 : UInt8) ∉ ascii "\"" := by decide
    obtain ⟨h1, h2, h3, h4, h5, h6⟩ := hends
    unfold headerLine dispositionText
    simp only [List.mem_append, not_or]
    refine ⟨⟨h1, h2⟩, ⟨h3, ?_⟩, ?_⟩
    · split_ifs
      · simp only [List.mem_append, not_or]
        exact ⟨⟨h4, hn⟩, h6⟩
      · exact List.not_mem_nil
    · split_ifs
      · simp only [List.mem_append, not_or]
        exact ⟨⟨h5, hf⟩, h6⟩
      · exact List.not_mem_nil
  · have hleft : trimLeft (ch ' ' :: dispositionText name file_name) =
        dispositionText name file_name := by
      unfold trimLeft
      have hspace : ¬ isSpace (ch 'f') = true := by decide
      rw [List.dropWhile_cons_of_pos (by decide)]
      exact List.dropWhile_cons_of_neg hspace
    unfold trim
    rw [hleft]
    -- The last byte is a quote, or the last of `form-data`.
    unfold dispositionText
    split_ifs
    · rw [← List.append_assoc]
      exact List.rdropWhile_concat_neg _ _ _ (by decide)
    · rw [List.append_nil, ← List.append_assoc]
      exact List.rdropWhile_concat_neg _ _ _ (by decide)
    · rw [← List.append_assoc]
      exact List.rdropWhile_concat_neg _ _ _ (by decide)
    · decide

/-- The headers that a part without any is given. -/
def FormPart.lines (part : FormPart) : List Header :=
  (kContentDisposition, dispositionText part.name part.file_name) ::
    if part.media_type = [] then [] else [(kContentType, part.media_type)]

theorem FormPart.prepare_text {part : FormPart} (h : part.headers.entries = []) :
    part.prepare.2 = headerLines part.lines ++ kCRLF ++ part.data ++ kCRLF := by
  have hheaders : part.headers = Store.empty := Store.ext h
  have hother : upper kContentType ∉
      [(kContentDisposition, dispositionText part.name part.file_name)].map fun e => upper e.1 := by
    change upper kContentType ∉ [upper kContentDisposition]
    decide
  have hentries : part.setHeaders.headers.entries = part.lines := by
    unfold FormPart.setHeaders FormPart.lines
    simp only [hheaders]
    by_cases htype : part.media_type = []
    · simp only [htype, ne_eq, not_true_eq_false, if_false, if_true]
      rfl
    · simp only [ne_eq, htype, not_false_eq_true, if_true, if_false]
      exact Store.put_of_not_mem _ _ _ hother
  unfold FormPart.prepare
  simp only [if_pos h, hentries]
  rfl

/-- What a form carries of a part. -/
def FormPart.received (part : FormPart) : FormPart :=
  { FormPart.new with name := part.name, file_name := part.file_name, data := part.data }

namespace RequestParser

/-- Data no line of which is a boundary. `ended` says whether one of them has the length and the dashes
of the last one, which is enough for the parser to stop behind the part. -/
def Passes (boundary data : Bytes) (ended : Bool) : Prop :=
  ∃ records : List Bytes, data ++ kCRLF = records.flatMap (· ++ kCRLF) ∧
    (∀ a ∈ records, IsRecord kCRLF a ∧ (isBoundary boundary a).1 = false) ∧
    ended = records.any fun a => (isBoundary boundary a).2

/-- A part whose headers are read as they are written. -/
structure PartHead (part : FormPart) : Prop where
  headers : part.headers.entries = []
  name : QuotedText part.name
  file_name : QuotedText part.file_name
  media_type : part.media_type ≠ [] → Written (kContentType, part.media_type)

/-- A part that the text of a form can carry. -/
structure Sendable (boundary : Bytes) (ended : Bool) (part : FormPart) : Prop extends
    PartHead part where
  data : part.data ≠ []
  passes : Passes boundary part.data ended

theorem scan_lines {part : FormPart} (h : PartHead part) (s : Bytes) :
    scan kCRLF partHeaderStep (true, FormPart.new) (headerLines part.lines ++ kCRLF ++ s) =
      ((true, { FormPart.new with name := part.name, file_name := part.file_name }), s, true) := by
  have hwritten := written_disposition h.name h.file_name
  have hne : ∀ e : Header, headerLine e ≠ [] := fun e => by simp [headerLine, ascii]
  have hfirst : partHeaderStep (true, FormPart.new)
      (headerLine (kContentDisposition, dispositionText part.name part.file_name)) =
      ((true, { FormPart.new with name := part.name, file_name := part.file_name }), false) := by
    have hkey : iequals kContentDisposition kContentDisposition = true := by decide
    unfold partHeaderStep
    rw [if_neg (hne _), hwritten.split2]
    simp only [hkey, if_true, contentDisposition_text h.name h.file_name]
  have hend : ∀ st : Bool × FormPart, scan kCRLF partHeaderStep st (kCRLF ++ s) =
      ((true, st.2), s, true) := by
    intro st
    have hcut : cut kCRLF (kCRLF ++ s) = some ([], s) := isRecord_nil.cut_eq s
    rw [scan_of_cut kCRLF_ne_nil st hcut]
    rfl
  have hcut : ∀ t, cut kCRLF (headerLine (kContentDisposition,
      dispositionText part.name part.file_name) ++ kCRLF ++ t) = some (_, t) :=
    fun t => hwritten.record.cut_eq t
  rw [headerLines_eq]
  unfold FormPart.lines
  by_cases htype : part.media_type = []
  · rw [if_pos htype]
    simp only [List.map_cons, List.map_nil, List.flatMap_cons, List.flatMap_nil, List.append_nil]
    rw [List.append_assoc, scan_of_cut kCRLF_ne_nil _ (hcut _), hfirst]
    exact hend _
  · rw [if_neg htype]
    have hwritten' := h.media_type htype
    have hcut' : ∀ t, cut kCRLF (headerLine (kContentType, part.media_type) ++ kCRLF ++ t) =
        some (_, t) := fun t => hwritten'.record.cut_eq t
    have hsecond : ∀ st : FormPart, partHeaderStep (true, st)
        (headerLine (kContentType, part.media_type)) = ((true, st), false) := by
      intro st
      have hkey : iequals kContentType kContentDisposition = false := by decide
      unfold partHeaderStep
      rw [if_neg (hne _), hwritten'.split2]
      simp only [hkey, Bool.false_eq_true, if_false]
    simp only [List.map_cons, List.map_nil, List.flatMap_cons, List.flatMap_nil, List.append_nil]
    rw [List.append_assoc, List.append_assoc, scan_of_cut kCRLF_ne_nil _ (hcut _), hfirst]
    simp only [Bool.false_eq_true, if_false]
    rw [scan_of_cut kCRLF_ne_nil _ (hcut' _), hsecond]
    exact hend _

/-! ## Boundaries -/

theorem strncmpEq_append (a t : Bytes) : strncmpEq a.length a (a ++ t) = true := by
  induction a with
  | nil => rfl
  | cons c a ih => simp [strncmpEq, ih]

theorem isBoundary_line (boundary : Bytes) :
    isBoundary boundary (ascii "--" ++ boundary) = (true, false) := by
  have hsame := strncmpEq_append boundary []
  rw [List.append_nil] at hsame
  simp [isBoundary, ascii, hsame]

theorem isBoundary_last (boundary : Bytes) :
    isBoundary boundary (ascii "--" ++ boundary ++ ascii "--") = (true, true) := by
  have hsame := strncmpEq_append boundary (ascii "--")
  simp [isBoundary, ascii] at hsame ⊢
  simp [hsame]

theorem boundaryStep_record {boundary a : Bytes} (ha : (isBoundary boundary a).1 = false) (off : Nat)
    (ended : Bool) :
    boundaryStep boundary { off := off, count := 0, ended := ended } a =
      ({ off := off + (a ++ kCRLF).length, count := 0,
         ended := ended || (isBoundary boundary a).2 }, false) := by
  unfold boundaryStep
  by_cases hnil : a = []
  · subst hnil
    have hempty : isBoundary boundary [] = (false, false) := by simp [isBoundary]
    rw [if_pos rfl, hempty, Bool.or_false]
    rfl
  · rw [if_neg hnil]
    simp only [ha, Bool.false_eq_true, if_false]
    rw [List.length_append]
    rfl

theorem foldl_records {boundary : Bytes} {records : List Bytes}
    (h : ∀ a ∈ records, (isBoundary boundary a).1 = false) (off : Nat) (ended : Bool) :
    records.foldl (fun st a => (boundaryStep boundary st a).1)
        { off := off, count := 0, ended := ended } =
      { off := off + (records.flatMap (· ++ kCRLF)).length, count := 0,
        ended := ended || records.any fun a => (isBoundary boundary a).2 } := by
  induction records generalizing off ended with
  | nil => simp
  | cons a records ih =>
    rw [List.foldl_cons, boundaryStep_record (h a List.mem_cons_self),
      ih fun b hb => h b (List.mem_cons_of_mem a hb)]
    simp only [List.flatMap_cons, List.length_append, List.any_cons, Bool.or_assoc, Nat.add_assoc]

/-- The next boundary behind data is found at its place; that it is the last one may have been said
by a line of the data. -/
theorem getNextBoundaryLine_passes {boundary data line : Bytes} {seen ended : Bool}
    (h : Passes boundary data seen) (hline : isBoundary boundary line = (true, ended))
    (hrecord : IsRecord kCRLF line) (hne : line ≠ []) (s : Bytes) :
    getNextBoundaryLine boundary (data ++ kCRLF ++ (line ++ kCRLF ++ s)) =
      some { off := data.length + 2, count := line.length, ended := seen || ended } := by
  obtain ⟨records, hrecords, hpass, rfl⟩ := h
  have hgo : ∀ st : BoundaryLine, ∀ a ∈ records, (boundaryStep boundary st a).2 = false := by
    intro st a ha
    unfold boundaryStep
    by_cases hnil : a = []
    · rw [if_pos hnil]
    · rw [if_neg hnil]
      simp only [(hpass a ha).2, Bool.false_eq_true, if_false]
  have hcut : cut kCRLF (line ++ kCRLF ++ s) = some (line, s) := hrecord.cut_eq s
  have hlen : (records.flatMap (· ++ kCRLF)).length = data.length + 2 := by
    rw [← hrecords, List.length_append]
    rfl
  have hlast : ∀ off seen, boundaryStep boundary { off := off, count := 0, ended := seen } line =
      ({ off := off, count := line.length, ended := seen || ended }, true) := by
    intro off seen
    unfold boundaryStep
    rw [if_neg hne, hline]
    rfl
  unfold getNextBoundaryLine
  rw [hrecords, scan_records kCRLF_ne_nil records _ _ (fun a ha => (hpass a ha).1) hgo,
    foldl_records (fun a ha => (hpass a ha).2), scan_of_cut kCRLF_ne_nil _ hcut, hlast, hlen,
    Nat.zero_add, Bool.false_or]
  rfl

/-! ## Rounds -/

/-- The parser at a step of a form. -/
def onForm (p : RequestParser) (pending_data : Bytes) (form_parts : List FormPart) (step : Step)
    (part : Option FormPart) : RequestParser :=
  { p with
    pending_data := pending_data
    message := { p.message with form_parts := form_parts }
    derived := { step := step, part := part } }

/-- What is left of a form behind its next boundary. -/
def behindLine (boundary : Bytes) : List FormPart → Bytes
  | [] => []
  | part :: parts => part.prepare.2 ++ Request.formPayload boundary parts

theorem formPayload_cons (boundary : Bytes) (part : FormPart) (parts : List FormPart) :
    Request.formPayload boundary (part :: parts) =
      ascii "--" ++ boundary ++ kCRLF ++ behindLine boundary (part :: parts) := by
  simp only [Request.formPayload, behindLine, List.flatMap_cons, List.append_assoc]

variable {p : RequestParser} {part : FormPart} {form_parts : List FormPart}

theorem round_first (hrecord : IsRecord kCRLF (ascii "--" ++ boundary p)) (s : Bytes) :
    multipartRound (onForm p (ascii "--" ++ boundary p ++ kCRLF ++ s) form_parts .kStart none) =
      .again (onForm p s form_parts .kBoundaryParsed none) := by
  have hcut : cut kCRLF
      (onForm p (ascii "--" ++ boundary p ++ kCRLF ++ s) form_parts .kStart none).pending_data =
        some (ascii "--" ++ boundary p, s) := hrecord.cut_eq s
  have hline := congrArg Prod.fst (isBoundary_line (boundary p))
  rw [round_start_eq (by simp [onForm, ascii]) rfl, hcut]
  exact if_pos hline

theorem round_lines (h : PartHead part) (s : Bytes) :
    multipartRound (onForm p (part.prepare.2 ++ s) form_parts .kBoundaryParsed none) =
      .again (onForm p (part.data ++ kCRLF ++ s) form_parts .kHeadersParsed
        (some { FormPart.new with name := part.name, file_name := part.file_name })) := by
  have htext : part.prepare.2 ++ s =
      headerLines part.lines ++ kCRLF ++ (part.data ++ kCRLF ++ s) := by
    rw [FormPart.prepare_text h.headers]
    simp only [List.append_assoc]
  have hne : part.prepare.2 ++ s ≠ [] := by
    rw [htext]
    simp [kCRLF]
  rw [round_headers_eq hne rfl]
  change headersRound _ (scan kCRLF partHeaderStep (true, FormPart.new) (part.prepare.2 ++ s)) = _
  rw [htext, scan_lines h]
  rfl

theorem round_text {seen ended : Bool} (h : Sendable (boundary p) seen part)
    (form_parts : List FormPart) {line : Bytes}
    (hline : isBoundary (boundary p) line = (true, ended)) (hrecord : IsRecord kCRLF line)
    (hne : line ≠ []) (s : Bytes) :
    multipartRound (onForm p (part.data ++ kCRLF ++ (line ++ kCRLF ++ s)) form_parts .kHeadersParsed
        (some { FormPart.new with name := part.name, file_name := part.file_name })) =
      if seen || ended then .leave (true, onForm p s (form_parts ++ [part.received]) .kEnded none)
      else .again (onForm p s (form_parts ++ [part.received]) .kBoundaryParsed none) := by
  have hnext : getNextBoundaryLine (boundary (onForm p (part.data ++ kCRLF ++ (line ++ kCRLF ++ s))
        form_parts .kHeadersParsed
        (some { FormPart.new with name := part.name, file_name := part.file_name })))
      (onForm p (part.data ++ kCRLF ++ (line ++ kCRLF ++ s)) form_parts .kHeadersParsed
        (some { FormPart.new with name := part.name, file_name := part.file_name })).pending_data =
        some { off := part.data.length + 2, count := line.length, ended := seen || ended } :=
    getNextBoundaryLine_passes h.passes hline hrecord hne s
  have hlong : 2 < part.data.length + 2 := by
    have hpos := List.length_pos_of_ne_nil h.data
    omega
  have htake : (part.data ++ kCRLF ++ (line ++ kCRLF ++ s)).take (part.data.length + 2 - 2) =
      part.data := by
    rw [Nat.add_sub_cancel, List.append_assoc, List.take_left']
    rfl
  have hdrop : (part.data ++ kCRLF ++ (line ++ kCRLF ++ s)).drop
      (part.data.length + 2 + line.length + 2) = s := by
    rw [← List.append_assoc, List.drop_left']
    simp only [List.length_append, kCRLF, List.length_cons, List.length_nil]
    omega
  rw [round_data_eq (by simp [onForm, kCRLF]) rfl, hnext]
  simp only [if_pos hlong, onForm, htake, hdrop]
  rfl

/-- A boundary that a form can have. -/
structure BoundaryText (boundary : Bytes) : Prop where
  line : IsRecord kCRLF (ascii "--" ++ boundary)
  last : IsRecord kCRLF (ascii "--" ++ boundary ++ ascii "--")

/-- The round behind the headers of a part: it goes on if the part is not the last one, and has no
line that looks like the last boundary. -/
theorem round_behind {seen : Bool} (hb : BoundaryText (boundary p))
    (h : Sendable (boundary p) seen part) (form_parts parts : List FormPart) :
    multipartRound (onForm p (part.data ++ kCRLF ++ Request.formPayload (boundary p) parts)
        form_parts .kHeadersParsed
        (some { FormPart.new with name := part.name, file_name := part.file_name })) =
      if seen || parts.isEmpty then
        .leave (true, onForm p (behindLine (boundary p) parts) (form_parts ++ [part.received])
          .kEnded none)
      else .again (onForm p (behindLine (boundary p) parts) (form_parts ++ [part.received])
        .kBoundaryParsed none) := by
  cases parts with
  | nil =>
    have htext := round_text h form_parts (isBoundary_last (boundary p)) hb.last (by simp [ascii]) []
    rwa [List.append_nil] at htext
  | cons next parts =>
    rw [formPayload_cons]
    exact round_text h form_parts (isBoundary_line (boundary p)) hb.line (by simp [ascii]) _

/-- The rounds of a form from behind its first boundary: the parts are taken one after the other up to
the last one, or one with a line that looks like the last boundary. -/
theorem leaves_parts {ended : Bool} (hb : BoundaryText (boundary p)) (before : List FormPart)
    {after : List FormPart} (hbefore : ∀ part' ∈ before, Sendable (boundary p) false part')
    (hpart : Sendable (boundary p) ended part) (hends : ended = true ∨ after = [])
    (form_parts : List FormPart) :
    Leaves multipartRound
      (onForm p (behindLine (boundary p) (before ++ part :: after)) form_parts .kBoundaryParsed none)
      (true, onForm p (behindLine (boundary p) after)
        (form_parts ++ (before ++ [part]).map FormPart.received) .kEnded none) := by
  induction before generalizing form_parts with
  | nil =>
    have htext := round_behind hb hpart form_parts after
    rw [if_pos (by simpa using hends)] at htext
    exact .again (round_lines hpart.toPartHead _) (.leave htext)
  | cons first before ih =>
    have hfirst := hbefore first List.mem_cons_self
    have htext := round_behind hb hfirst form_parts (before ++ part :: after)
    rw [if_neg (by simp)] at htext
    have hrest := ih (fun part' h => hbefore part' (List.mem_cons_of_mem first h))
      (form_parts ++ [first.received])
    rw [List.append_assoc] at hrest
    exact .again (round_lines hfirst.toPartHead _) (.again htext hrest)

/-- All rounds of a form. -/
theorem leaves_payload {ended : Bool} (hb : BoundaryText (boundary p)) (before after : List FormPart)
    (hbefore : ∀ part' ∈ before, Sendable (boundary p) false part')
    (hpart : Sendable (boundary p) ended part) (hends : ended = true ∨ after = []) :
    Leaves multipartRound
      (onForm p (Request.formPayload (boundary p) (before ++ part :: after)) [] .kStart none)
      (true, onForm p (behindLine (boundary p) after) ((before ++ [part]).map FormPart.received)
        .kEnded none) := by
  have hparts := leaves_parts hb before hbefore hpart hends []
  obtain ⟨first, rest, hfirst⟩ := List.exists_cons_of_ne_nil
    (show before ++ part :: after ≠ [] by simp)
  rw [hfirst] at hparts ⊢
  rw [formPayload_cons]
  exact .again (round_first hb.line _) hparts

/-! ## A part without data -/

/-- Behind the headers of a part without data the next boundary is refused. -/
theorem round_refused (hb : BoundaryText (boundary p)) (hempty : part.data = [])
    (form_parts parts : List FormPart) (next : Option FormPart) :
    multipartRound (onForm p (part.data ++ kCRLF ++ Request.formPayload (boundary p) parts)
        form_parts .kHeadersParsed next) =
      .leave (false, onForm p (part.data ++ kCRLF ++ Request.formPayload (boundary p) parts)
        form_parts .kHeadersParsed next) := by
  have hpasses : Passes (boundary p) part.data false := by
    rw [hempty]
    refine ⟨[[]], rfl, fun a ha => ?_, ?_⟩
    · rw [List.mem_singleton.mp ha]
      exact ⟨isRecord_nil, by simp [isBoundary]⟩
    · simp [isBoundary]
  have hline : ∃ count ended,
      getNextBoundaryLine (boundary (onForm p
          (part.data ++ kCRLF ++ Request.formPayload (boundary p) parts) form_parts .kHeadersParsed
          next))
        (onForm p (part.data ++ kCRLF ++ Request.formPayload (boundary p) parts) form_parts
          .kHeadersParsed next).pending_data =
        some { off := part.data.length + 2, count := count, ended := ended } := by
    cases parts with
    | nil =>
      have hlast := getNextBoundaryLine_passes hpasses (isBoundary_last (boundary p)) hb.last
        (by simp [ascii]) []
      rw [List.append_nil] at hlast
      exact ⟨_, _, hlast⟩
    | cons first parts =>
      rw [formPayload_cons]
      exact ⟨_, _, getNextBoundaryLine_passes hpasses (isBoundary_line (boundary p)) hb.line
        (by simp [ascii]) _⟩
  obtain ⟨count, ended, hnext⟩ := hline
  have hshort : ¬ 2 < part.data.length + 2 := by simp [hempty]
  rw [round_data_eq (by simp [onForm, kCRLF]) rfl, hnext]
  simp only [if_neg hshort]

theorem leaves_refused (hb : BoundaryText (boundary p)) (before after : List FormPart)
    (hbefore : ∀ part' ∈ before, Sendable (boundary p) false part') (hpart : PartHead part)
    (hempty : part.data = []) (form_parts : List FormPart) :
    ∃ s next, Leaves multipartRound
      (onForm p (behindLine (boundary p) (before ++ part :: after)) form_parts .kBoundaryParsed none)
      (false, onForm p s (form_parts ++ before.map FormPart.received) .kHeadersParsed next) := by
  induction before generalizing form_parts with
  | nil =>
    rw [List.map_nil, List.append_nil]
    exact ⟨_, _, .again (round_lines hpart _) (.leave (round_refused hb hempty form_parts after _))⟩
  | cons first before ih =>
    have hfirst := hbefore first List.mem_cons_self
    have htext := round_behind hb hfirst form_parts (before ++ part :: after)
    rw [if_neg (by simp)] at htext
    obtain ⟨s, next, hrest⟩ := ih (fun part' h => hbefore part' (List.mem_cons_of_mem first h))
      (form_parts ++ [first.received])
    rw [List.append_assoc] at hrest
    exact ⟨s, next, .again (round_lines hfirst.toPartHead _) (.again htext hrest)⟩

/-! ## The form as a whole -/

variable {reserve : Nat → Bool} {start_line method target : Bytes} {es : List Header}

theorem FormHead.length_valid (hhead : FormHead reserve start_line method target es) :
    ¬ ((behindHead .start start_line method target es).content_length_parsed = false ∨
      (behindHead .start start_line method target es).content_length = kInvalidLength) := by
  obtain ⟨n, hlength, hn⟩ := hhead.length
  simpa [behindHead, hlength] using hn

/-- Of the text of a form the parser takes what makes the loop leave, and not less. -/
theorem contentOf_leaves (hhead : FormHead reserve start_line method target es) {e t s : Bytes}
    {parts : List FormPart}
    (hall : Leaves multipartRound
      (onForm (behindHead .start start_line method target es) (e ++ t) [] .kStart none)
      (true, onForm (behindHead .start start_line method target es) s parts .kEnded none)) :
    (t = [] → contentOf (behindHead .start start_line method target es) e =
        .done (onForm (behindHead .start start_line method target es) s parts .kEnded none).finish) ∧
      ∀ q, contentOf (behindHead .start start_line method target es) e = .done q →
        ∃ s', s' ++ t = s ∧ q.message =
          { announced start_line method target es with form_parts := parts } := by
  have hstart : (behindHead .start start_line method target es).derived.step ≠ .kEnded := start_step
  obtain ⟨r, hleaves, honly, hcontent⟩ := contentOf_form hhead.plain hhead.form hstart e
  rw [if_neg hhead.length_valid] at hcontent
  constructor
  · rintro rfl
    rw [List.append_nil] at hall
    rw [hcontent, Leaves.unique hleaves hall]
    exact if_pos ⟨rfl, rfl⟩
  · intro q hdone
    rw [hcontent] at hdone
    obtain ⟨_, _, _, hsame⟩ := honly
    have hends : r.1 = true ∧ r.2.derived.step = .kEnded := by
      by_contra hnot
      have hfinished : r.2.finished = false := by
        rw [hsame]
        rfl
      rw [if_neg hnot] at hdone
      unfold Parser.outcome at hdone
      simp only [hfinished, Bool.false_eq_true, if_false] at hdone
      split_ifs at hdone
    -- The loop has left at the last step: more text stays behind it.
    have hmore := leaves_append hleaves hstart t
    rw [if_neg (by simp [hends.2])] at hmore
    have hresult := Leaves.unique hmore hall
    refine ⟨r.2.pending_data, congrArg (fun r => r.2.pending_data) hresult, ?_⟩
    rw [if_pos hends] at hdone
    cases hdone
    have hcontent_nil : r.2.content = [] := by
      rw [hsame]
      rfl
    rw [finish_message, if_pos hcontent_nil]
    exact congrArg (fun r => r.2.message) hresult

theorem readAll_leaves (hhead : FormHead reserve start_line method target es) {text s : Bytes}
    {parts : List FormPart}
    (hall : Leaves multipartRound
      (onForm (behindHead .start start_line method target es) text [] .kStart none)
      (true, onForm (behindHead .start start_line method target es) s parts .kEnded none))
    (reads : List Bytes) (hreads : reads.flatten = Parser.headText start_line es ++ text) :
    ∃ q s', (readAll reserve (fresh .start) reads).1 = .done q ∧
      s' ++ (readAll reserve (fresh .start) reads).2.flatten = s ∧
      q.message = { announced start_line method target es with form_parts := parts } := by
  have hwaiting := waiting_fresh start_step
  have hnil := read_fresh_nil reserve .start
  have hhere := readsHead hhead.line hhead.headers .start
  have hread : ∀ e, read reserve (fresh .start) (Parser.headText start_line es ++ e) =
      contentOf (behindHead .start start_line method target es) e := fun e => hhere.read e
  have hwhole := (contentOf_leaves hhead (by rwa [List.append_nil])).1 rfl
  rw [← hread, ← hreads] at hwhole
  have hplain : Parser.Plain (read reserve (fresh .start) reads.flatten) := by
    rw [hwhole]
    exact (Parser.finish_chunked _).trans hhead.plain
  have hkind := (resumes reserve).kind_feedAll _ reads hwaiting hnil hplain
  obtain ⟨used, hused, houtcome, -, -⟩ :=
    (resumes reserve).feedAll_spec _ reads hwaiting hnil hplain
  rw [hwhole] at hkind
  obtain ⟨q, hq⟩ := Outcome.kind_eq_done hkind
  have hflatten : used.flatten ++ (readAll reserve (fresh .start) reads).2.flatten =
      Parser.headText start_line es ++ text := by
    rw [← hreads, ← List.flatten_append]
    exact congrArg List.flatten hused.symm
  have hdone : read reserve (fresh .start) used.flatten = .done q := houtcome.symm.trans hq
  -- The head has been read, or the parser would wait.
  have hstop : (headers reserve (fresh .start) used.flatten).2.2 = true := by
    by_contra hwait
    rw [read_headers reserve hwaiting rfl] at hdone
    have hnone : (fresh .start).pending_data ++ used.flatten = used.flatten := rfl
    simp only [hnone, hwait, if_true] at hdone
    cases hdone
  obtain ⟨e, he, -⟩ := hhere.stop ⟨_, hflatten⟩ hstop
  rw [he, List.append_assoc, List.append_cancel_left_eq] at hflatten
  rw [he, hread] at hdone
  rw [← hflatten] at hall
  obtain ⟨s', hs', hmessage⟩ := (contentOf_leaves hhead hall).2 q hdone
  exact ⟨q, s', hq, hs', hmessage⟩

/-- The headers of a form with the boundary `b`. -/
def formEntries (n : Nat) : List Header :=
  [(kContentType, ascii "multipart/form-data; boundary=b"), (kContentLength, uintToString n)]

theorem formHead_entries {n : Nat} (hn : n < kInvalidLength) :
    FormHead (fun _ => true) (ascii "POST /images HTTP/1.1") (ascii "POST") (ascii "/images")
      (formEntries n) := by
  have hkeys : ¬ iequals kContentType kContentLength = true ∧
      ¬ iequals kContentLength kContentType = true := by decide
  have hnumber : stoul (uintToString n) 10 = some n := by
    apply stoul_uintToString
    unfold kInvalidLength at hn
    omega
  refine ⟨requestLine_post, ⟨?_, ?_⟩, rfl, rfl, n, ?_, Nat.ne_of_lt hn⟩
  · intro h hh
    rcases List.mem_cons.mp hh with rfl | hh
    · decide
    · rw [List.mem_singleton.mp hh]
      exact written_contentLength n
  · intro h hh
    rcases List.mem_cons.mp hh with rfl | hh
    · exact ⟨fun hkey => absurd hkey hkeys.1, fun _ => by decide⟩
    · rw [List.mem_singleton.mp hh]
      exact ⟨fun _ => ⟨n, hnumber, rfl⟩, fun hkey => absurd hkey hkeys.2⟩
  · change some ((stoul (uintToString n) 10).getD 0) = some n
    rw [hnumber]
    rfl

theorem boundary_entries (n : Nat) : (contentType (formEntries n)).additional = ascii "b" := rfl

theorem boundaryText_b : BoundaryText (ascii "b") := ⟨by decide, by decide⟩

/-- A line in the data that has the length and the dashes of the last boundary ends the form behind
its part, whatever stands between the dashes: the request is done, and the parts after are lost. -/
theorem readAll_lookalike (hhead : FormHead reserve start_line method target es)
    (hb : BoundaryText (contentType es).additional) (before after : List FormPart)
    (hbefore : ∀ part' ∈ before, Sendable (contentType es).additional false part')
    (hpart : Sendable (contentType es).additional true part) (reads : List Bytes)
    (hreads : reads.flatten = Parser.headText start_line es ++
      Request.formPayload (contentType es).additional (before ++ part :: after)) :
    ∃ q left, (readAll reserve (fresh .start) reads).1 = .done q ∧
      left ++ (readAll reserve (fresh .start) reads).2.flatten =
        behindLine (contentType es).additional after ∧
      q.message = { announced start_line method target es with
        form_parts := (before ++ [part]).map FormPart.received } := by
  have hall := leaves_payload (p := behindHead .start start_line method target es) hb before after
    hbefore hpart (Or.inl rfl)
  exact readAll_leaves hhead hall reads hreads

/-- Of two parts the first has such a line. -/
theorem readAll_lookalike_two :
    let part := { FormPart.new with name := ascii "u", data := ascii "--x--" }
    let lost := { FormPart.new with name := ascii "v", data := ascii "1" }
    let form := Request.formPayload (ascii "b") [part, lost]
    let text := Parser.headText (ascii "POST /images HTTP/1.1") (formEntries form.length) ++ form
    ∃ q, (readAll (fun _ => true) (fresh .start) [text]).1 = .done q ∧
      q.message.form_parts = [part] := by
  intro part lost form text
  have hlength : form.length < kInvalidLength := by decide +kernel
  have hboundary : (contentType (formEntries form.length)).additional = ascii "b" :=
    boundary_entries form.length
  have hb : BoundaryText (contentType (formEntries form.length)).additional := by
    rw [hboundary]
    exact boundaryText_b
  have hpart : Sendable (contentType (formEntries form.length)).additional true part := by
    rw [hboundary]
    exact ⟨⟨rfl, ⟨by decide, by decide, by decide⟩, ⟨by decide, by decide, by decide⟩,
      fun hmedia => absurd rfl hmedia⟩, by decide, [ascii "--x--"], by decide, by decide, by decide⟩
  have hreads : [text].flatten = text := List.flatten_singleton
  obtain ⟨q, -, hdone, -, hmessage⟩ := readAll_lookalike (formHead_entries hlength) hb [] [lost]
    (fun _ hnone => absurd hnone List.not_mem_nil) hpart [text] (by
      rw [hboundary]
      exact hreads)
  refine ⟨q, hdone, ?_⟩
  rw [hmessage]
  rfl

/-- A form with a part without data, behind parts that the format can carry, is rejected, in any reads,
whatever comes behind the part. -/
theorem readAll_refused (hhead : FormHead reserve start_line method target es)
    (hb : BoundaryText (contentType es).additional) (before after : List FormPart)
    (hbefore : ∀ part' ∈ before, Sendable (contentType es).additional false part')
    (hpart : PartHead part) (hempty : part.data = []) (reads : List Bytes)
    (hreads : reads.flatten = Parser.headText start_line es ++
      Request.formPayload (contentType es).additional (before ++ part :: after)) :
    ∃ derived, (readAll reserve (fresh .start) reads).1 = .fail (.rejected
      { announced start_line method target es with form_parts := before.map FormPart.received }
      derived false) := by
  have hhere := readsHead hhead.line hhead.headers .start
  have hstart : (behindHead .start start_line method target es).derived.step ≠ .kEnded := start_step
  obtain ⟨s, next, hrounds⟩ := leaves_refused (p := behindHead .start start_line method target es)
    hb before after hbefore hpart hempty []
  have hall : Leaves multipartRound
      ((behindHead .start start_line method target es).withPending
        (Request.formPayload (contentType es).additional (before ++ part :: after)))
      (false, onForm (behindHead .start start_line method target es) s
        (before.map FormPart.received) .kHeadersParsed next) := by
    obtain ⟨first, rest, hfirst⟩ := List.exists_cons_of_ne_nil
      (show before ++ part :: after ≠ [] by simp)
    rw [hfirst] at hrounds ⊢
    rw [formPayload_cons]
    exact .again (round_first (p := behindHead .start start_line method target es) hb.line _) hrounds
  obtain ⟨r, hleaves, -, hcontent⟩ := contentOf_form hhead.plain hhead.form hstart
    (Request.formPayload (contentType es).additional (before ++ part :: after))
  rw [if_neg hhead.length_valid, Leaves.unique hleaves hall] at hcontent
  have hwhole : read reserve (fresh .start) reads.flatten = .fail (.rejected
      { announced start_line method target es with form_parts := before.map FormPart.received }
      { step := .kHeadersParsed, part := next } (announcesChunks es)) := by
    rw [hreads]
    exact (hhere.read _).trans hcontent
  rw [hhead.plain] at hwhole
  have hkind := (resumes reserve).kind_feedAll _ reads (waiting_fresh start_step)
    (read_fresh_nil reserve .start) (by
      rw [hwhole]
      rfl)
  rw [hwhole] at hkind
  exact ⟨_, Outcome.kind_eq_fail hkind⟩

/-- A form of one empty field. -/
theorem readAll_refused_one :
    let form := Request.formPayload (ascii "b") [{ FormPart.new with name := ascii "u" }]
    let text := Parser.headText (ascii "POST /images HTTP/1.1") (formEntries form.length) ++ form
    ∃ request derived, (readAll (fun _ => true) (fresh .start) [text]).1 =
      .fail (.rejected request derived false) := by
  intro form text
  have hlength : form.length < kInvalidLength := by decide +kernel
  have hboundary : (contentType (formEntries form.length)).additional = ascii "b" :=
    boundary_entries form.length
  have hb : BoundaryText (contentType (formEntries form.length)).additional := by
    rw [hboundary]
    exact boundaryText_b
  have hpart : PartHead { FormPart.new with name := ascii "u" } :=
    ⟨rfl, ⟨by decide, by decide, by decide⟩, ⟨by decide, by decide, by decide⟩,
      fun hmedia => absurd rfl hmedia⟩
  have hreads : [text].flatten = text := List.flatten_singleton
  obtain ⟨derived, hfail⟩ := readAll_refused (formHead_entries hlength) hb [] []
    (fun _ hnone => absurd hnone List.not_mem_nil) hpart rfl [text] (by
      rw [hboundary]
      exact hreads)
  exact ⟨_, derived, hfail⟩

end RequestParser

end FaceDetection.Webcc

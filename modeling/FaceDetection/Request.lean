import FaceDetection.Faces

/-!
# From the form to the detector

`face_detection` cuts the payload out of the form's `base64img` and sends it as JSON, and decodes the
same payload itself for the crop. `to_json` is a parameter.
-/

open FaceDetection.Json FaceDetection.Base64

namespace FaceDetection

variable {Double Mat : Type}

/-! ## Strings of the controller -/

/-- The pieces of a string around `pattern`: `piece` is what the current one has so far. -/
def splitLoop (pattern : Bytes) : Nat → Bytes → Bytes → List Bytes
  | 0, piece, _ => [piece]
  | _ + 1, piece, [] => [piece]
  | fuel + 1, piece, c :: rest =>
    if pattern.isPrefixOf (c :: rest) then
      piece :: splitLoop pattern fuel [] ((c :: rest).drop pattern.length)
    else splitLoop pattern fuel (piece ++ [c]) rest

/-- `String#split`: empty pieces at the end are left out. -/
def split (s pattern : Bytes) : List Bytes :=
  (splitLoop pattern (s.length + 1) [] s).rdropWhile fun piece => piece = []

/-- `taken_image.split('base64,')[1]`. `none` is `nil`. -/
def payload (taken_image : Bytes) : Option Bytes := (split taken_image (ascii "base64,"))[1]?

/-- `Base64.decode64`. -/
def decode64 (str : Bytes) : Bytes := decodeLenient str

/-- `{faceId: @image.id, imageData: base64img}.to_json`. -/
def requestBody (to_json : Bytes → Bytes) (id : Nat) (base64img : Option Bytes) : Bytes :=
  let imageData :=
    match base64img with
    | some s => to_json s
    | none => ascii "null"
  ascii "\x7b\"faceId\":" ++ uintToString id ++ ascii ",\"imageData\":" ++ imageData ++ ascii "\x7d"

/-! ## Two decoders -/

/-- OpenCV that keeps what `imdecode` gets. -/
def OpenCV.recording : OpenCV Bytes where
  matrix := []
  imdecode bytes := .ok bytes
  empty mat := mat = []
  equalizeHist mat := .ok mat
  detectMultiScale _ := .ok []
  empty_matrix := rfl

theorem setImageData_eq (cv : OpenCV Mat) (image : Image Mat) (imageData : PrefixedString) :
    image.setImageData cv imageData.val =
      (cv.imdecode (decodePrefix imageData.val)).map fun matInput =>
        { image with matInput := matInput } := by
  have hshort : imageData.val.length < 2 ^ 31 := by
    have hmax := imageData.property
    simp only [maxStringLength] at hmax
    omega
  unfold Image.setImageData
  rw [base64Decode_eq _ hshort]
  cases cv.imdecode (decodePrefix imageData.val) <;> rfl

theorem setImageData_recording (image : Image Bytes) (imageData : PrefixedString) :
    image.setImageData OpenCV.recording imageData.val =
      .ok { image with matInput := decodePrefix imageData.val } := by
  rw [setImageData_eq]
  rfl

/-- The service decodes from `imageData` what the controller decodes from its payload. -/
def DecodersAgree (taken_image : Bytes) (imageData : PrefixedString) : Prop :=
  ∃ imgData, (payload taken_image).map decode64 = some imgData ∧ ∀ image : Image Bytes,
    image.setImageData OpenCV.recording imageData.val = .ok { image with matInput := imgData }

/-- The service decodes what the controller crops exactly when nothing straggles, or a character that gives
no byte. The stretch in which characters straggle is empty when the first foreign one is `=`. -/
theorem decodersAgree_iff (taken_image : Bytes) (imageData : PrefixedString)
    (htransport : payload taken_image = some imageData.val) :
    DecodersAgree taken_image imageData ↔
      straggling imageData.val = [] ∨
        ((imageData.val.takeWhile inAlphabet).length % 4 = 0 ∧
          (straggling imageData.val).length = 1) := by
  rw [← decodePrefix_eq_decodeLenient_iff]
  unfold DecodersAgree
  simp only [htransport, Option.map_some, Option.some.injEq, setImageData_recording]
  constructor
  · rintro ⟨imgData, rfl, h⟩
    exact congrArg Image.matInput (Except.ok.inj (h ⟨[], []⟩))
  · intro h
    exact ⟨_, rfl, fun image => by rw [h]; rfl⟩

/-- The form's text of a picture. -/
def dataUrl (base64img : Bytes) : Bytes := ascii "data:image/png;base64," ++ base64img

theorem decodersAgree_unbroken : DecodersAgree (dataUrl (ascii "QUJD")) ⟨ascii "QUJD", by decide⟩ :=
  (decodersAgree_iff (dataUrl (ascii "QUJD")) ⟨ascii "QUJD", by decide⟩ rfl).mpr
    (Or.inl (by decide))

/-- `Base64.encode64` breaks its lines. The service stops at the break. -/
theorem not_decodersAgree_lineBreak :
    ¬ ∀ (taken_image : Bytes) (imageData : PrefixedString),
      payload taken_image = some imageData.val → DecodersAgree taken_image imageData := by
  intro hall
  obtain ⟨imgData, himgData, h⟩ :=
    hall (dataUrl (ascii "QUJD\nREVG")) ⟨ascii "QUJD\nREVG", by decide⟩ rfl
  have hservice := h ⟨[], []⟩
  rw [setImageData_recording] at hservice
  have hbytes := congrArg Image.matInput (Except.ok.inj hservice)
  simp only at hbytes
  rw [← hbytes] at himgData
  revert himgData
  decide

/-! ## The whole way -/

/-- `token` is a JSON string for `s`. -/
def DenotesString (token s : Bytes) : Prop := ∃ t, token = quoted t ∧ StringBody t s

theorem splitLoop_last {pattern : Bytes} {c : UInt8} (hc : c ∈ pattern) {rest : Bytes}
    (hrest : c ∉ rest) (fuel : Nat) (hfuel : rest.length < fuel) (piece : Bytes) :
    splitLoop pattern fuel piece rest = [piece ++ rest] := by
  induction rest generalizing fuel piece with
  | nil => cases fuel <;> simp [splitLoop]
  | cons d rest ih =>
    obtain ⟨fuel, rfl⟩ : ∃ f, fuel = f + 1 := ⟨fuel - 1, by omega⟩
    have hprefix : ¬ pattern.isPrefixOf (d :: rest) = true := by
      intro hp
      exact hrest ((List.isPrefixOf_iff_prefix.mp hp).subset hc)
    simp only [List.length_cons] at hfuel
    rw [splitLoop, if_neg hprefix, ih (fun h => hrest (by simp [h])) fuel (by omega)]
    simp

theorem payload_dataUrl {base64img : Bytes} (hne : base64img ≠ []) (hcomma : ch ',' ∉ base64img) :
    payload (dataUrl base64img) = some base64img := by
  have hsplit : splitLoop (ascii "base64,") ((dataUrl base64img).length + 1) [] (dataUrl base64img) =
      ascii "data:image/png;" :: splitLoop (ascii "base64,") (base64img.length + 7) [] base64img := rfl
  have hmem : ch ',' ∈ ascii "base64," := by decide
  unfold payload split
  rw [hsplit, splitLoop_last hmem hcomma _ (by omega)]
  simp [List.rdropWhile, hne]

theorem encode_chars (b : Bytes) : ∀ c ∈ encode b, inAlphabet c = true ∨ c = ch '=' := by
  intro c hc
  unfold encode padding at hc
  rcases List.mem_append.mp hc with hc | hc
  · obtain ⟨s, hs, rfl⟩ := List.mem_map.mp hc
    exact Or.inl (inAlphabet_charOf s (toSextets_lt b s hs))
  · exact Or.inr (List.eq_of_mem_replicate hc)

theorem payload_encode {b : Bytes} (hb : 1 ≤ b.length) :
    payload (dataUrl (encode b)) = some (encode b) := by
  have hlen := encode_length b
  apply payload_dataUrl
  · intro hnil
    rw [hnil, List.length_nil] at hlen
    omega
  · intro hcomma
    have hchars := encode_chars b _ hcomma
    revert hchars
    simp only [inAlphabet, alphabet_bytes]
    decide

/-- A text that needs no escapes. -/
theorem stringBody_plain {s : Bytes} (h : ∀ c ∈ s, 0x20 ≤ c ∧ c ≠ ch '"' ∧ c ≠ ch '\\') :
    StringBody s s := by
  induction s with
  | nil => exact StringBody.nil
  | cons c s ih =>
    obtain ⟨hc, hquote, hslash⟩ := h c (by simp)
    exact StringBody.plain hc hquote hslash (ih fun c hc => h c (by simp [hc]))

theorem stringBody_encode (b : Bytes) : StringBody (encode b) (encode b) := by
  have halphabet : ∀ c ∈ alphabet, 0x20 ≤ c ∧ c ≠ ch '"' ∧ c ≠ ch '\\' := by
    rw [alphabet_bytes]
    simp [ch]
  apply stringBody_plain
  intro c hc
  rcases encode_chars b c hc with hmem | rfl
  · unfold inAlphabet at hmem
    exact halphabet c (of_decide_eq_true hmem)
  · decide

/-- The value that a record id in the request is read as. -/
def idValue (id : Nat) : Value Double :=
  if id ≤ 2 ^ 31 - 1 then .intValue (Int64.ofInt id) else .uintValue (UInt64.ofNat id)

theorem toInt_ofInt_id {id : Nat} (hid : id < 2 ^ 63) : (Int64.ofInt id).toInt = id := by
  have hbmod : (id : Int).bmod 18446744073709551616 = id := Int.bmod_eq_of_le (by omega) (by omega)
  rw [Int64.toInt_ofInt]
  exact hbmod

theorem idValue_text {P : Value Double → Bytes → Prop} {id : Nat} (hid : id < 2 ^ 63) :
    ValueText P (idValue id) (uintToString id) := by
  unfold idValue
  split_ifs with hsmall
  · have hvalue := toInt_ofInt_id hid
    have htext : ValueText P (.intValue (Int64.ofInt id)) _ := ValueText.int (by omega)
    rwa [valueToStringInt_eq, hvalue, if_neg (by omega), Int.toNat_natCast] at htext
  · have hvalue : (UInt64.ofNat id).toNat = id := UInt64.toNat_ofNat_of_lt (by simp only [UInt64.size]; omega)
    have htext : ValueText P (.uintValue (UInt64.ofNat id)) _ := ValueText.uint (by omega)
    unfold valueToStringUInt at htext
    rwa [hvalue] at htext

theorem idValue_asString (libc : LibC Double) {id : Nat} (hid : id < 2 ^ 63) :
    (idValue id : Value Double).asString libc = .ok (uintToString id) := by
  unfold idValue
  split_ifs with hsmall
  · have hvalue := toInt_ofInt_id hid
    change Except.ok (valueToStringInt _) = _
    rw [valueToStringInt_eq, hvalue, if_neg (by omega), Int.toNat_natCast]
  · have hvalue : (UInt64.ofNat id).toNat = id := UInt64.toNat_ofNat_of_lt (by simp only [UInt64.size]; omega)
    change Except.ok (uintToString _) = _
    rw [hvalue]

/-- What the service parses out of the request. -/
def requestValue (id : Nat) (imageData : PrefixedString) : Value Double :=
  .objectValue [(ascii "faceId", idValue id), (ascii "imageData", .stringValue imageData)]

/-- The member `faceId`, as the request has it. -/
theorem faceId_memberText (libc : LibC Double) (levels : Nat) {id : Nat} (hid : id < 2 ^ 63) :
    MemberText (Reads (readValue libc (levels + 1))) (ascii "faceId", (idValue id : Value Double))
      (ascii "\"faceId\":" ++ uintToString id) := by
  have hname : StringBody (ascii "faceId") (ascii "faceId") := stringBody_plain (by simp [ascii, ch])
  have hvalue : Text 0 (idValue id : Value Double) (uintToString id) := idValue_text hid
  have hread := readValue_text libc (show 0 < levels + 1 by omega) hvalue
  exact memberText_plain hname (by decide) hread

theorem stringBody_imageData : StringBody (ascii "imageData") (ascii "imageData") :=
  stringBody_plain (by simp [ascii, ch])

/-- A request whose `imageData` has the text `t` of `v`. -/
theorem parse_request (libc : LibC Double) {id : Nat} (hid : id < 2 ^ 63) {v : Value Double}
    {t : Bytes} (hread : Reads (readValue libc (stackLimit - 1)) v t) :
    parseFromStream libc (ascii "\x7b\"faceId\":" ++ uintToString id ++ ascii ",\"imageData\":" ++ t ++
        ascii "\x7d") =
      .ok (true, .objectValue [(ascii "faceId", idValue id), (ascii "imageData", v)]) := by
  have himageData := memberText_plain stringBody_imageData (by decide) hread
  have hlt : ascii "faceId" < ascii "imageData" := by decide
  have hsorted : storeMembers [] [(ascii "faceId", (idValue id : Value Double)),
      (ascii "imageData", v)] = [(ascii "faceId", idValue id), (ascii "imageData", v)] :=
    storeMembers_sorted [] _ (sortedNames (by simpa using hlt))
  have hobject := ValueText.object
    (Separated.cons (faceId_memberText libc (stackLimit - 2) hid) (Separated.single himageData))
  rw [hsorted] at hobject
  have hreads := readValue_valueText libc (fun _ _ h => h) hobject
  have hparse := parseFromStream_reads libc ws_nil ws_nil hreads
  simpa [quoted, ascii] using hparse

theorem parse_requestBody (libc : LibC Double) {to_json : Bytes → Bytes} {id : Nat}
    (hid : id < 2 ^ 63) {imageData : PrefixedString}
    (hjson : DenotesString (to_json imageData.val) imageData.val) :
    parseFromStream libc (requestBody to_json id (some imageData.val)) =
      .ok (true, requestValue id imageData) := by
  obtain ⟨t, ht, hbody⟩ := hjson
  have hread := reads_string libc (stackLimit - 2) hbody
    (Value.ofString_ok imageData.val imageData.property)
  unfold requestBody
  simp only [ht]
  exact parse_request libc hid hread

/-- The members of a request whose `imageData` is a string that the reader cannot store. -/
theorem readObject_request_error (libc : LibC Double) (levels : Nat) {id : Nat} (hid : id < 2 ^ 63)
    {s t : Bytes} (ht : StringBody t s) {fault : Fault}
    (hs : (Value.ofString s : Except Fault (Value Double)) = .error fault) (rest : Bytes) {r : Reader}
    (hr : At ((ascii "\"faceId\":" ++ uintToString id) ++
      ch ',' :: (quoted (ascii "imageData") ++ (ch ':' :: (quoted t ++ rest)))) r) :
    readObject (readValue libc (levels + 1)) r = .error fault := by
  obtain ⟨fuel, hfuel⟩ : ∃ fuel, r.current_.length = fuel + 1 := by
    refine ⟨r.current_.length - 1, ?_⟩
    rw [hr.1, List.length_append, List.length_cons]
    omega
  obtain ⟨r1, hr1, hloop⟩ := readObjectLoop_member (fun _ _ h => h) (faceId_memberText libc levels hid)
    (Or.inr rfl) rfl (follow_of_head (by decide) _) (fun _ => rfl) (fuel + 1) [] [] hr
  have hstring : ∀ old r, At ([] ++ (quoted t ++ rest)) r →
      readValue libc (levels + 1) old r = .error fault := by
    intro old r hr
    exact readValue_string_error libc levels ht hs old ws_nil hr
  have hthrows := readObjectLoop_member_error ws_nil ws_nil stringBody_imageData (by decide) hstring fuel
    (ascii "faceId") (setMember (ascii "faceId") (idValue id) []) hr1
  unfold readObject
  rw [hfuel, hloop, if_neg (by simp), hthrows]
  rfl

theorem parse_request_error (libc : LibC Double) {id : Nat} (hid : id < 2 ^ 63) {s t : Bytes}
    (ht : StringBody t s) {fault : Fault}
    (hs : (Value.ofString s : Except Fault (Value Double)) = .error fault) :
    parseFromStream libc (ascii "\x7b\"faceId\":" ++ uintToString id ++ ascii ",\"imageData\":" ++
        quoted t ++ ascii "\x7d") = .error fault := by
  have hbrace : ascii "\x7b\"faceId\":" ++ uintToString id ++ ascii ",\"imageData\":" ++ quoted t ++
      ascii "\x7d" = [] ++ ch '\x7b' :: ((ascii "\"faceId\":" ++ uintToString id) ++
        ch ',' :: (quoted (ascii "imageData") ++ (ch ':' :: (quoted t ++ ascii "\x7d")))) := by
    simp [quoted, ascii]
  rw [hbrace]
  generalize htext : [] ++ ch '\x7b' :: ((ascii "\"faceId\":" ++ uintToString id) ++
    ch ',' :: (quoted (ascii "imageData") ++ (ch ':' :: (quoted t ++ ascii "\x7d")))) = body
  have hstart : At body (Reader.start body) := ⟨rfl, rfl⟩
  rw [← htext] at hstart
  obtain ⟨r1, htoken, hr1⟩ := readToken_punctuation .objectBegin ws_nil rfl hstart fun _ => rfl
  have hobject := readObject_request_error libc (stackLimit - 2) hid ht hs _ hr1
  have hvalue : readValue libc stackLimit .nullValue _ = .error fault :=
    readValue_token_error htoken (by simp) hr1.2 hobject
  rw [htext] at hvalue
  unfold parseFromStream parse
  unfold Reader.start at hvalue
  simp only
  rw [hvalue]
  rfl

/-- What `JsonToImage` makes of a parsed request. -/
theorem jsonStringToImage_members {libc : LibC Double} (cv : OpenCV Mat) {id : Nat}
    (hid : id < 2 ^ 63) {body : Bytes} {ok : Bool} {v : Value Double}
    (hparse : parseFromStream libc body =
      .ok (ok, .objectValue [(ascii "faceId", idValue id), (ascii "imageData", v)])) :
    jsonStringToImage libc cv body =
      (if !v.isNull then
        v.asString libc >>= fun text => Image.setImageData cv ⟨uintToString id, cv.matrix⟩ text
      else .ok ⟨uintToString id, cv.matrix⟩).map some := by
  have hfaceId : (Value.objectValue [(ascii "faceId", idValue id), (ascii "imageData", v)]).member
      (ascii "faceId") = .ok (idValue id) := rfl
  have himageData : (Value.objectValue [(ascii "faceId", idValue id), (ascii "imageData", v)]).member
      (ascii "imageData") = .ok v := rfl
  unfold jsonStringToImage jsonToImage
  rw [stringToJson_eq hparse, ok_bind, if_neg (by simp [Value.isNull]), hfaceId, ok_bind,
    idValue_asString libc hid, ok_bind, himageData, ok_bind]
  cases v.isNull <;> rfl

theorem jsonStringToImage_requestBody (libc : LibC Double) (cv : OpenCV Mat)
    {to_json : Bytes → Bytes} {id : Nat} (hid : id < 2 ^ 63) (imageData : PrefixedString)
    (hjson : DenotesString (to_json imageData.val) imageData.val) :
    jsonStringToImage libc cv (requestBody to_json id (some imageData.val)) =
      (cv.imdecode (decodePrefix imageData.val)).map fun matInput =>
        some { faceId := uintToString id, matInput := matInput } := by
  rw [jsonStringToImage_members cv hid (parse_requestBody libc hid hjson)]
  change (Image.setImageData cv _ imageData.val).map some = _
  rw [setImageData_eq]
  cases cv.imdecode (decodePrefix imageData.val) <;> rfl

/-- Every picture up to the longest whose encoding fits a string value comes to `imdecode` as it was. -/
theorem imdecode_gets (libc : LibC Double) (cv : OpenCV Mat) (to_json : Bytes → Bytes) (id : Nat)
    (hid : id < 2 ^ 63) (b : Bytes) (hb : 1 ≤ b.length) (hmax : b.length ≤ 1610612730)
    (hjson : DenotesString (to_json (encode b)) (encode b)) :
    jsonStringToImage libc cv (requestBody to_json id (payload (dataUrl (encode b)))) =
      (cv.imdecode b).map fun matInput =>
        some { faceId := uintToString id, matInput := matInput } := by
  have hlen : (encode b).length ≤ maxStringLength := by
    rw [encode_length, maxStringLength]
    omega
  have hpipeline := jsonStringToImage_requestBody libc cv hid ⟨encode b, hlen⟩ hjson
  rw [payload_encode hb, hpipeline, decodePrefix_encode]

theorem imdecode_gets_three_bytes :
    jsonStringToImage LibC.integersOnly OpenCV.recording
        (requestBody quoted 7 (payload (dataUrl (encode [65, 66, 67])))) =
      .ok (some { faceId := ascii "7", matInput := [65, 66, 67] }) := by
  exact imdecode_gets LibC.integersOnly OpenCV.recording quoted 7 (by decide) [65, 66, 67]
    (by decide) (by decide) ⟨_, rfl, stringBody_encode _⟩

/-! ## The longest picture -/

theorem decodePrefix_length (s : Bytes) : (decodePrefix s).length ≤ s.length := by
  have htake : (s.takeWhile inAlphabet).length ≤ s.length := (List.takeWhile_sublist _).length_le
  rw [decodePrefix, fromSextets_length, List.length_map]
  omega

/-- A string value is shorter than 2^31 bytes, so the picture decoded from it is too. -/
theorem matInput_recording_length {libc : LibC Double} {body : Bytes} {image : Image Bytes}
    (h : jsonStringToImage libc OpenCV.recording body = .ok (some image)) :
    image.matInput.length < 2 ^ 31 := by
  obtain ⟨json, -, h⟩ := bind_ok h
  split_ifs at h
  · cases h
  obtain ⟨image', himage, h⟩ := bind_ok h
  cases h
  obtain ⟨faceIdValue, -, himage⟩ := bind_ok himage
  obtain ⟨faceId, -, himage⟩ := bind_ok himage
  obtain ⟨imageData, -, himage⟩ := bind_ok himage
  split_ifs at himage
  · obtain ⟨text, htext, himage⟩ := bind_ok himage
    have hmax : text.length ≤ maxStringLength := (asString_ends libc imageData).of_ok htext
    have himageData := setImageData_recording
      { faceId := faceId, matInput := OpenCV.recording.matrix } ⟨text, hmax⟩
    rw [himageData] at himage
    cases himage
    have hdecoded := decodePrefix_length text
    simp only [maxStringLength] at hmax hdecoded ⊢
    omega
  · cases himage
    simp [OpenCV.recording]

theorem imdecode_misses_long_picture :
    ¬ ∀ (to_json : Bytes → Bytes) (b : Bytes), 1 ≤ b.length →
      DenotesString (to_json (encode b)) (encode b) →
        jsonStringToImage LibC.integersOnly OpenCV.recording
            (requestBody to_json 1 (payload (dataUrl (encode b)))) =
          .ok (some { faceId := ascii "1", matInput := b }) := by
  intro hall
  have hshort : ∀ b : Bytes, 1 ≤ b.length → b.length < 2 ^ 31 := by
    intro b hb
    exact matInput_recording_length (hall quoted b hb ⟨_, rfl, stringBody_encode b⟩)
  have hlong : ∀ n, 1 ≤ n → n < 2 ^ 31 := by
    intro n hn
    have h := hshort (List.replicate n 0) (by rw [List.length_replicate]; exact hn)
    rwa [List.length_replicate] at h
  exact lt_irrefl _ (hlong (2 ^ 31) (by decide))

end FaceDetection

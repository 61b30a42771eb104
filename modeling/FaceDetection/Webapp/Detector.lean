import FaceDetection.Webapp.ImagesController

/-!
# The detector behind the controller

`face_detection` and `Post` in one piece: the body that the controller builds, what the service makes
of it, and what the controller reads out of the answer.
-/

open FaceDetection.Json FaceDetection.Base64

namespace FaceDetection

variable {Double Mat : Type}

/-! ## The service on a request of the controller -/

/-- OpenCV that notes what `imdecode` gets, if it is called. -/
def OpenCV.tracing : OpenCV (Option Bytes) where
  matrix := none
  imdecode bytes := .ok (some bytes)
  empty mat := mat = none
  equalizeHist mat := .ok mat
  detectMultiScale _ := .ok []
  empty_matrix := rfl

/-- `imdecode` throws on no bytes. All other calls return. -/
structure OpenCV.RejectsEmpty (cv : OpenCV Mat) : Prop where
  imdecode_nil : ∃ fault, cv.imdecode [] = .error fault
  imdecode : ∀ bytes, bytes ≠ [] → ∃ mat, cv.imdecode bytes = .ok mat
  equalizeHist : ∀ mat, ∃ mat', cv.equalizeHist mat = .ok mat'
  detectMultiScale : ∀ mat, ∃ vFaces, cv.detectMultiScale mat = .ok vFaces

/-- A detector that finds `vFaces` in every picture, and rejects no bytes. -/
def OpenCV.rejecting (vFaces : List Rect) : OpenCV Bool :=
  { OpenCV.detecting vFaces with
    imdecode bytes := if bytes = [] then .error (.cvException "!buf.empty()") else .ok false }

theorem rejectsEmpty_rejecting (vFaces : List Rect) : (OpenCV.rejecting vFaces).RejectsEmpty where
  imdecode_nil := ⟨_, rfl⟩
  imdecode _ hne := ⟨false, if_neg hne⟩
  equalizeHist mat := ⟨mat, rfl⟩
  detectMultiScale _ := ⟨vFaces, rfl⟩

theorem requestBody_ne_nil (to_json : Bytes → Bytes) (id : Nat) (base64img : Option Bytes) :
    requestBody to_json id base64img ≠ [] := by
  unfold requestBody
  simp [ascii]

theorem jsonStringToImage_null (libc : LibC Double) (cv : OpenCV Mat) (to_json : Bytes → Bytes)
    {id : Nat} (hid : id < 2 ^ 63) :
    jsonStringToImage libc cv (requestBody to_json id none) =
      .ok (some { faceId := uintToString id, matInput := cv.matrix }) := by
  have hnull : Text 0 (.nullValue : Value Double) (ascii "null") := ValueText.null
  have hparse := parse_request libc hid (readValue_text libc (by decide) hnull)
  exact jsonStringToImage_members cv hid hparse

/-- A payload that the reader stores as `p`. -/
theorem jsonStringToImage_stored (libc : LibC Double) (cv : OpenCV Mat) {to_json : Bytes → Bytes}
    {id : Nat} (hid : id < 2 ^ 63) {s : Bytes} (hjson : DenotesString (to_json s) s)
    {p : PrefixedString} (hp : duplicateAndPrefixStringValue s = .ok p) :
    jsonStringToImage libc cv (requestBody to_json id (some s)) =
      (cv.imdecode (decodePrefix p.val)).map fun matInput =>
        some { faceId := uintToString id, matInput := matInput } := by
  obtain ⟨t, ht, hbody⟩ := hjson
  have hvalue : (Value.ofString s : Except Fault (Value Double)) = .ok (.stringValue p) := by
    unfold Value.ofString
    rw [hp]
    rfl
  have hparse := parse_request libc hid (reads_string libc (stackLimit - 2) hbody hvalue)
  unfold requestBody
  simp only [ht]
  rw [jsonStringToImage_members cv hid hparse]
  change (Image.setImageData cv _ p.val).map some = _
  rw [setImageData_eq]
  cases cv.imdecode (decodePrefix p.val) <;> rfl

theorem jsonStringToImage_tooLong (libc : LibC Double) (cv : OpenCV Mat) {to_json : Bytes → Bytes}
    {id : Nat} (hid : id < 2 ^ 63) {s : Bytes} (hjson : DenotesString (to_json s) s) {fault : Fault}
    (hs : duplicateAndPrefixStringValue s = .error fault) :
    jsonStringToImage libc cv (requestBody to_json id (some s)) = .error fault := by
  obtain ⟨t, ht, hbody⟩ := hjson
  have hvalue : (Value.ofString s : Except Fault (Value Double)) = .error fault := by
    unfold Value.ofString
    rw [hs]
    rfl
  have hparse := parse_request_error libc hid hbody hvalue
  unfold requestBody jsonStringToImage stringToJson
  simp only [ht]
  rw [hparse]
  rfl

/-- The answer to a request with an image. -/
theorem post_of_image {libc : LibC Double} {cv : OpenCV Mat} {body : Bytes} (hbody : body ≠ [])
    {id : Nat} (hid : id < 2 ^ 63) {mat : Mat}
    (himage : jsonStringToImage libc cv body =
      .ok (some { faceId := uintToString id, matInput := mat })) {vFaces : List Rect}
    (hfaces : Image.faceDetect cv { faceId := uintToString id, matInput := mat } [] = .ok vFaces) :
    ∃ faceId : PrefixedString, WellFormed faceId.val ∧ post libc cv body .new = .ok
      { status := some .kCreated, content := writeString libc (facesToJson faceId vFaces),
        media_type := ascii "application/json", charset := ascii "utf-8" } := by
  have hlen : (uintToString id).length ≤ maxStringLength := by
    have hdigits := uintToString_length id 20 (by omega) (by omega)
    unfold maxStringLength
    omega
  have hformed : WellFormed (uintToString id) := by
    apply wellFormed_of_ascii
    intro c hc
    have hdigit := isDigit_uintToString id c hc
    unfold isDigit at hdigit
    grind
  refine ⟨⟨uintToString id, hlen⟩, hformed, ?_⟩
  unfold post
  rw [if_neg hbody, himage, ok_bind]
  simp only
  rw [duplicateAndPrefixStringValue_ok _ hlen, ok_bind, hfaces]
  rfl

end FaceDetection

namespace FaceDetection.Webapp

variable {Double Mat Picture : Type}

/-! ## JSON values in Ruby -/

mutual

/-- The Ruby value of a JSON value. `float` is how a fraction is read. -/
def rubyValue (float : Double → RubyValue) : Value Double → RubyValue
  | .nullValue => .nil
  | .intValue int_ => .int int_.toInt
  | .uintValue uint_ => .int uint_.toNat
  | .realValue real_ => float real_
  | .stringValue string_ => .string string_.val
  | .booleanValue bool_ => .bool bool_
  | .arrayValue elements => .array (rubyElements float elements)
  | .objectValue members => .hash (rubyMembers float members)

def rubyElements (float : Double → RubyValue) : List (Value Double) → List RubyValue
  | [] => []
  | value :: rest => rubyValue float value :: rubyElements float rest

def rubyMembers (float : Double → RubyValue) : List (Bytes × Value Double) → List (Bytes × RubyValue)
  | [] => []
  | (name, value) :: rest => (name, rubyValue float value) :: rubyMembers float rest

end

theorem rubyElements_eq (float : Double → RubyValue) (elements : List (Value Double)) :
    rubyElements float elements = elements.map (rubyValue float) := by
  induction elements with
  | nil => rfl
  | cons value rest ih => rw [rubyElements, ih, List.map_cons]

/-- `JSON.parse` reads what the service prints. It goes down a hundred levels. -/
def Gems.ReadsJson (gems : Gems Picture) (libc : LibC Double) : Prop :=
  ∃ float, ∀ n value, n < 100 → Printable n value →
    gems.parse (writeString libc value) = some (rubyValue float value)

/-- Gems whose `JSON.parse` is the reader of the service. -/
def Gems.reading : Gems Bytes :=
  { Gems.stub [] with
    parse text :=
      match parseFromStream LibC.integersOnly text with
      | .ok (true, value) => some (rubyValue Empty.elim value)
      | _ => none }

theorem readsJson_reading : Gems.reading.ReadsJson LibC.integersOnly := by
  refine ⟨Empty.elim, ?_⟩
  intro n value hn hprintable
  have hlimit : n < stackLimit := by
    unfold stackLimit
    omega
  have hparse := parseFromStream_writeString LibC.integersOnly hlimit hprintable
  unfold Gems.reading
  simp only [hparse]

/-- What the controller reads out of a rectangle. -/
def faceInformation (face : Rect) : FaceInformation where
  height := .int face.height.toInt
  width := .int face.width.toInt
  x := .int face.x.toInt
  y := .int face.y.toInt

/-! ## The answer -/

theorem lookup_rubyFace (float : Double → RubyValue) (face : Rect) :
    ∃ members, rubyValue float (faceToJson face) = .hash members ∧
      members.lookup (ascii "height") = some (.int face.height.toInt) ∧
      members.lookup (ascii "width") = some (.int face.width.toInt) ∧
      members.lookup (ascii "x") = some (.int face.x.toInt) ∧
      members.lookup (ascii "y") = some (.int face.y.toInt) := by
  have hint := fun i : Int32 => Int32.toInt_toInt64 i
  rw [faceToJson_eq]
  refine ⟨_, rfl, ?_, ?_, ?_, ?_⟩
  · rw [← hint face.height]; rfl
  · rw [← hint face.width]; rfl
  · rw [← hint face.x]; rfl
  · rw [← hint face.y]; rfl

theorem index_rubyAnswer (float : Double → RubyValue) (faceId : PrefixedString)
    (elements : List (Value Double)) :
    (rubyValue float (.objectValue [(ascii "faceId", .stringValue faceId),
      (ascii "faces", .arrayValue elements)])).index (ascii "faces") =
        some (.array (elements.map (rubyValue float))) := by
  have hne : (ascii "faces" == ascii "faceId") = false := by decide
  rw [← rubyElements_eq]
  simp [rubyValue, rubyMembers, RubyValue.index, List.lookup, hne]

theorem lastFace_elements {gems : Gems Picture} {body : Bytes} {answer : RubyValue}
    (hparse : gems.parse body = some answer) {elements : List RubyValue}
    (hfaces : answer.index (ascii "faces") = some (.array elements)) :
    lastFace gems (some body) =
      match elements.getLast? with
      | none => some none
      | some face => do
        let height ← face.index (ascii "height")
        let width ← face.index (ascii "width")
        let x ← face.index (ascii "x")
        let y ← face.index (ascii "y")
        return some { height := height, width := width, x := x, y := y } := by
  unfold lastFace
  simp only [Option.bind_eq_bind, Option.bind_some, hparse, hfaces, RubyValue.size, RubyValue.last]
  rcases List.eq_nil_or_concat' elements with rfl | ⟨front, face, rfl⟩
  · rfl
  · simp

/-- The controller reads the last rectangle that the answer lists. -/
theorem lastFace_facesToJson {gems : Gems Picture} {libc : LibC Double} (hparse : gems.ReadsJson libc)
    {faceId : PrefixedString} (hformed : WellFormed faceId.val) (vFaces : List Rect) :
    lastFace gems (some (writeString libc (facesToJson faceId vFaces))) =
      some ((vFaces.take (toInt vFaces.length).toNat).getLast?.map faceInformation) := by
  obtain ⟨float, hparse⟩ := hparse
  have htext := hparse 3 _ (by omega) (printable_facesToJson hformed vFaces)
  have hfaces := index_rubyAnswer float faceId
    ((vFaces.take (toInt vFaces.length).toNat).map faceToJson)
  rw [← facesToJson_eq] at hfaces
  rw [lastFace_elements htext hfaces, List.getLast?_map, List.getLast?_map]
  cases (vFaces.take (toInt vFaces.length).toNat).getLast? with
  | none => rfl
  | some face =>
    obtain ⟨members, hface, hheight, hwidth, hx, hy⟩ := lookup_rubyFace float face
    simp [hface, RubyValue.index, hheight, hwidth, hx, hy, faceInformation]

/-! ## What a `base64img` does to both programs -/

/-- `imdecode` gets a picture or is not called, the service answers 201, and the controller reads the
faces out of the answer. -/
structure Served (libc : LibC Double) (cv : OpenCV Mat) (gems : Gems Picture) (base64img : Bytes)
    (id : Nat) : Prop where
  decodes : ∀ image, jsonStringToImage libc OpenCV.tracing
    (requestBody gems.toJson id (payload base64img)) = .ok (some image) → image.matInput ≠ some []
  answers : ∃ response, post libc cv (requestBody gems.toJson id (payload base64img)) .new =
    .ok response ∧ response.status = some .kCreated ∧
      ∃ found, lastFace gems (some response.content) = some found

/-- What the service stores of `s` begins with two characters of the alphabet. Its length is an
`unsigned`. -/
def Decodable (s : Bytes) : Prop :=
  toUnsigned s.length ≤ maxStringLength ∧
    2 ≤ ((s.take (toUnsigned s.length)).takeWhile inAlphabet).length

theorem decodePrefix_eq_nil_iff (s : Bytes) :
    decodePrefix s = [] ↔ (s.takeWhile inAlphabet).length < 2 := by
  rw [← List.length_eq_zero_iff, decodePrefix, fromSextets_length, List.length_map]
  omega

theorem decodable_iff (s : Bytes) :
    Decodable s ↔ ∃ p, duplicateAndPrefixStringValue s = .ok p ∧ decodePrefix p.val ≠ [] := by
  unfold Decodable duplicateAndPrefixStringValue
  simp only [ne_eq, decodePrefix_eq_nil_iff, not_lt]
  constructor
  · rintro ⟨hlen, htwo⟩
    rw [dif_pos hlen]
    exact ⟨_, rfl, htwo⟩
  · rintro ⟨p, hp, htwo⟩
    split_ifs at hp with hlen
    cases hp
    exact ⟨hlen, htwo⟩

section Requests

variable {libc : LibC Double} {cv : OpenCV Mat} {gems : Gems Picture} {id : Nat}
  (hcv : cv.RejectsEmpty) (hparse : gems.ReadsJson libc) (hid : id < 2 ^ 63)

include hcv hparse hid

/-- With an image for which the calls return, the service answers. -/
theorem answers_of_image {base64img : Option Bytes} {mat : Mat}
    (himage : jsonStringToImage libc cv (requestBody gems.toJson id base64img) =
      .ok (some { faceId := uintToString id, matInput := mat })) :
    ∃ response, post libc cv (requestBody gems.toJson id base64img) .new = .ok response ∧
      response.status = some .kCreated ∧
      ∃ found, lastFace gems (some response.content) = some found := by
  obtain ⟨vFaces, hfaces⟩ : ∃ vFaces, Image.faceDetect cv
      { faceId := uintToString id, matInput := mat } [] = .ok vFaces := by
    unfold Image.faceDetect
    split_ifs
    · exact ⟨[], rfl⟩
    · obtain ⟨mat', hmat'⟩ := hcv.equalizeHist mat
      obtain ⟨vFaces, hfaces⟩ := hcv.detectMultiScale mat'
      refine ⟨vFaces, ?_⟩
      rw [hmat', ok_bind, hfaces]
  obtain ⟨faceId, hformed, hpost⟩ :=
    post_of_image (requestBody_ne_nil gems.toJson id base64img) hid himage hfaces
  exact ⟨_, hpost, rfl, _, lastFace_facesToJson hparse hformed vFaces⟩

theorem served_iff_stored (base64img : Bytes) {s : Bytes} (hpayload : payload base64img = some s)
    (hjson : DenotesString (gems.toJson s) s) :
    Served libc cv gems base64img id ↔
      ∃ p, duplicateAndPrefixStringValue s = .ok p ∧ decodePrefix p.val ≠ [] := by
  constructor
  · rintro ⟨hdecodes, response, hpost, -⟩
    rw [hpayload] at hdecodes hpost
    cases hp : duplicateAndPrefixStringValue s with
    | error fault =>
      have hthrows := jsonStringToImage_tooLong libc cv hid hjson hp
      unfold post at hpost
      rw [if_neg (requestBody_ne_nil _ _ _), hthrows] at hpost
      cases hpost
    | ok p =>
      have himage := jsonStringToImage_stored libc OpenCV.tracing hid hjson hp
      refine ⟨p, rfl, ?_⟩
      intro hnil
      apply hdecodes _ himage
      simp only [hnil]
  · rintro ⟨p, hp, hne⟩
    refine ⟨?_, ?_⟩
    · intro image himage hnil
      rw [hpayload, jsonStringToImage_stored libc OpenCV.tracing hid hjson hp] at himage
      cases himage
      exact hne (Option.some.inj hnil)
    · obtain ⟨mat, hmat⟩ := hcv.imdecode _ hne
      have himage := jsonStringToImage_stored libc cv hid hjson hp
      rw [hmat] at himage
      rw [hpayload]
      exact answers_of_image hcv hparse hid himage

/-- Without a payload `imageData` is null, and the service has no picture to look at. -/
theorem served_null (base64img : Bytes) (hpayload : payload base64img = none) :
    Served libc cv gems base64img id := by
  refine ⟨?_, ?_⟩
  · intro image himage
    rw [hpayload, jsonStringToImage_null libc OpenCV.tracing gems.toJson hid] at himage
    cases himage
    simp [OpenCV.tracing]
  · rw [hpayload]
    exact answers_of_image hcv hparse hid (jsonStringToImage_null libc cv gems.toJson hid)

end Requests

/-- The controller's request gets an answer that its `create` can read exactly when the payload decodes
to something. -/
theorem served_iff (libc : LibC Double) (cv : OpenCV Mat) (gems : Gems Picture) (base64img : Bytes)
    (id : Nat) (hcv : cv.RejectsEmpty) (hparse : gems.ReadsJson libc) (hid : id < 2 ^ 63)
    (hjson : ∀ s, payload base64img = some s → DenotesString (gems.toJson s) s) :
    Served libc cv gems base64img id ↔ ∀ s, payload base64img = some s → Decodable s := by
  cases hpayload : payload base64img with
  | none =>
    apply iff_of_true (served_null hcv hparse hid base64img hpayload)
    intro s hs
    cases hs
  | some s =>
    rw [served_iff_stored hcv hparse hid base64img hpayload (hjson s hpayload), ← decodable_iff]
    simp

theorem served_iff_picture :
    Served LibC.integersOnly (OpenCV.rejecting [⟨1, 2, 30, 40⟩]) Gems.reading (dataUrl (ascii "QUJD")) 7 := by
  have hpayload : payload (dataUrl (ascii "QUJD")) = some (ascii "QUJD") := rfl
  refine (served_iff LibC.integersOnly (OpenCV.rejecting [⟨1, 2, 30, 40⟩]) Gems.reading
    (dataUrl (ascii "QUJD")) 7 (rejectsEmpty_rejecting _) readsJson_reading (by decide) ?_).mpr ?_
  · intro s hs
    rw [hpayload] at hs
    cases hs
    exact ⟨_, rfl, stringBody_plain (by simp [ascii, ch])⟩
  · intro s hs
    rw [hpayload] at hs
    cases hs
    unfold Decodable
    decide

/-- A single character outside the alphabet is not blank, and decodes to nothing. -/
theorem not_served_symbol :
    ¬ ∀ (base64img : Bytes) (id : Nat), blank (some base64img) = false → id < 2 ^ 63 →
      Served LibC.integersOnly (OpenCV.rejecting []) Gems.reading base64img id := by
  intro hall
  obtain ⟨-, response, hpost, -⟩ := hall (dataUrl (ascii "!")) 1 (by decide) (by decide)
  have hid : 1 < 2 ^ 63 := by decide
  have hpayload : payload (dataUrl (ascii "!")) = some (ascii "!") := rfl
  have hstored : duplicateAndPrefixStringValue (ascii "!") = .ok ⟨ascii "!", by decide⟩ := rfl
  have himage := jsonStringToImage_stored LibC.integersOnly (OpenCV.rejecting []) hid
    ⟨_, rfl, stringBody_plain (by simp [ascii, ch])⟩ hstored
  have hthrows : (OpenCV.rejecting []).imdecode (decodePrefix (ascii "!")) =
      .error (.cvException "!buf.empty()") := rfl
  rw [hthrows] at himage
  unfold post at hpost
  rw [if_neg (requestBody_ne_nil _ _ _), hpayload] at hpost
  change (jsonStringToImage _ _ (requestBody quoted 1 (some (ascii "!"))) >>= _) = _ at hpost
  rw [himage] at hpost
  cases hpost

end FaceDetection.Webapp

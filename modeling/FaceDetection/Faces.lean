import FaceDetection.Json.RoundTrip
import FaceDetection.Post

/-!
# What the response says

The response content, parsed again, gives back the face id of the request and the rectangles of the
detector, as long as their number fits an `int`.
-/

open FaceDetection.Json

namespace FaceDetection

variable {Double Mat : Type}

/-! ## The answer in the response -/

/-- The decimal text of an integer. -/
def decimal (z : Int) : Bytes :=
  if z < 0 then ch '-' :: uintToString (-z).toNat else uintToString z.toNat

/-- The string form of a face id that is an integer or a string of UTF-8. -/
inductive FaceIdText : Value Double → Bytes → Prop
  | int (i : Int64) : FaceIdText (.intValue i) (decimal i.toInt)
  | uint (u : UInt64) : FaceIdText (.uintValue u) (decimal u.toNat)
  | string (s : PrefixedString) (h : WellFormed s.val) : FaceIdText (.stringValue s) s.val

/-- `vFaces` is what the detector returns for the request. -/
def Detected (libc : LibC Double) (cv : OpenCV Mat) (body : Bytes) (vFaces : List Rect) : Prop :=
  ∃ image, jsonStringToImage libc cv body = .ok (some image) ∧ image.faceDetect cv [] = .ok vFaces

/-- The member `name` is the integer `i`. -/
def HasInt (members : List (Bytes × Value Double)) (name : String) (i : Int32) : Prop :=
  ∃ j, findMember (ascii name) members = some (.intValue j) ∧ j.toInt = i.toInt

/-- The value says the rectangle. -/
def SaysRect (face : Rect) (value : Value Double) : Prop :=
  ∃ members, value = .objectValue members ∧ HasInt members "width" face.width ∧
    HasInt members "height" face.height ∧ HasInt members "x" face.x ∧ HasInt members "y" face.y

/-- The value says the face id and the rectangles, in order. -/
def SaysFaces (faceId : Bytes) (vFaces : List Rect) (value : Value Double) : Prop :=
  ∃ members text faces, value = .objectValue members ∧
    findMember (ascii "faceId") members = some (.stringValue text) ∧ text.val = faceId ∧
    findMember (ascii "faces") members = some (.arrayValue faces) ∧
    List.Forall₂ SaysRect vFaces faces

/-! ## Face ids -/

theorem wellFormed_of_ascii {s : Bytes} (h : ∀ b ∈ s, b < 0x80) : WellFormed s := by
  refine ⟨s.map fun b => Char.ofNat b.toNat, ?_⟩
  induction s with
  | nil => rfl
  | cons b s ih =>
    have hb := h b (by simp)
    have hutf8 : ∀ b : UInt8, b < 0x80 → String.utf8EncodeChar (Char.ofNat b.toNat) = [b] := by
      decide +kernel
    rw [List.map_cons, List.flatMap_cons, hutf8 b hb, ← ih fun b hb => h b (by simp [hb])]
    rfl

theorem wellFormed_decimal (z : Int) : WellFormed (decimal z) := by
  have hdigit : ∀ c : UInt8, isDigit c = true → c < 0x80 := by
    intro c hc
    unfold isDigit at hc
    grind
  have huint : ∀ n, ∀ c ∈ uintToString n, c < 0x80 := fun n c hc =>
    hdigit c (isDigit_uintToString n c hc)
  apply wellFormed_of_ascii
  unfold decimal
  split_ifs
  · intro c hc
    rcases List.mem_cons.mp hc with rfl | hc
    · decide
    · exact huint _ c hc
  · exact huint _

theorem faceIdText_asString (libc : LibC Double) {value : Value Double} {faceId : Bytes}
    (h : FaceIdText value faceId) : value.asString libc = .ok faceId := by
  cases h with
  | int i => exact congrArg Except.ok (valueToStringInt_eq i)
  | uint u =>
    unfold decimal
    rw [if_neg (by omega)]
    rfl
  | string s h => rfl

theorem faceIdText_wellFormed {value : Value Double} {faceId : Bytes} (h : FaceIdText value faceId) :
    WellFormed faceId := by
  cases h with
  | int i => exact wellFormed_decimal _
  | uint u => exact wellFormed_decimal _
  | string s h => exact h

/-! ## The loop over the faces -/

theorem appendFaces_eq (n i : Int) (rest : List Rect) (faces : List (Value Double)) :
    appendFaces n i rest faces = faces ++ (rest.take (n - i).toNat).map faceToJson := by
  induction rest generalizing i faces with
  | nil => simp [appendFaces]
  | cons face rest ih =>
    unfold appendFaces
    split_ifs with h
    · have hstep : (n - i).toNat = (n - (i + 1)).toNat + 1 := by omega
      rw [ih, hstep, List.take_succ_cons]
      simp
    · have hzero : (n - i).toNat = 0 := by omega
      rw [hzero]
      simp

theorem faceToJson_eq (face : Rect) : (faceToJson face : Value Double) = .objectValue
    [(ascii "height", .intValue face.height.toInt64), (ascii "width", .intValue face.width.toInt64),
      (ascii "x", .intValue face.x.toInt64), (ascii "y", .intValue face.y.toInt64)] := by
  rfl

theorem faceId_lt_faces : ascii "faceId" < ascii "faces" := by decide

/-- A short ASCII name is one that the reader takes. -/
theorem shortName {name : String}
    (h : (∀ b ∈ ascii name, b < 0x80) ∧ (ascii name).length < 2 ^ 30) :
    WellFormed (ascii name) ∧ (ascii name).length < 2 ^ 30 :=
  ⟨wellFormed_of_ascii h.1, h.2⟩

theorem facesToJson_eq (faceId : PrefixedString) (vFaces : List Rect) :
    (facesToJson faceId vFaces : Value Double) = .objectValue
      [(ascii "faceId", .stringValue faceId), (ascii "faces", .arrayValue
        ((vFaces.take (toInt vFaces.length).toNat).map faceToJson))] := by
  have hlt : ∀ m ∈ [(ascii "faceId", (Value.stringValue faceId : Value Double))],
      m.1 < ascii "faces" := by
    intro m hm
    rw [List.mem_singleton.mp hm]
    exact faceId_lt_faces
  have hmembers := fun faces => setMember_append faces hlt
  unfold facesToJson
  rw [appendFaces_eq, Int.sub_zero, List.nil_append]
  exact congrArg Value.objectValue (hmembers _)

theorem sortedNames {ms : List (Bytes × Value Double)} (h : (ms.map Prod.fst).Pairwise (· < ·)) :
    ms.Pairwise fun m m' => m.1 < m'.1 :=
  List.pairwise_map.mp h

theorem printable_faceToJson (face : Rect) : Printable 1 (faceToJson face : Value Double) := by
  have hint : ∀ i : Int32, Printable 0 (.intValue i.toInt64 : Value Double) := by
    intro i
    change i.toInt64.toInt ≤ 2 ^ 31 - 1
    have hlt := i.toInt_lt
    rw [Int32.toInt_toInt64]
    omega
  have hnames : [ascii "height", ascii "width", ascii "x", ascii "y"].Pairwise (· < ·) := by
    decide
  rw [faceToJson_eq]
  refine ⟨?_, ?_⟩
  · exact sortedNames hnames
  intro m hm
  simp only [List.mem_cons, List.not_mem_nil, or_false] at hm
  rcases hm with rfl | rfl | rfl | rfl
  all_goals exact ⟨shortName (by simp [ascii, ch]), hint _⟩

theorem printable_facesToJson {faceId : PrefixedString} (h : WellFormed faceId.val)
    (vFaces : List Rect) : Printable 3 (facesToJson faceId vFaces : Value Double) := by
  have hlen : toInt vFaces.length < 2 ^ 31 := Int.bmod_lt (by decide)
  have hnames : [ascii "faceId", ascii "faces"].Pairwise (· < ·) := by
    simpa using faceId_lt_faces
  rw [facesToJson_eq]
  refine ⟨sortedNames hnames, ?_⟩
  intro m hm
  simp only [List.mem_cons, List.not_mem_nil, or_false] at hm
  rcases hm with rfl | rfl
  · exact ⟨shortName (by simp [ascii, ch]), h⟩
  · refine ⟨shortName (by simp [ascii, ch]), ?_, ?_⟩
    · simp only [List.length_map, List.length_take]
      omega
    · intro v hv
      obtain ⟨face, -, rfl⟩ := List.mem_map.mp hv
      exact printable_faceToJson face

/-! ## The response -/

theorem post_created {libc : LibC Double} {cv : OpenCV Mat} {body : Bytes} {response : RestResponse}
    (h : post libc cv body .new = .ok response) (hcreated : response.status = some .kCreated) :
    ∃ image faceId vFaces, jsonStringToImage libc cv body = .ok (some image) ∧
      duplicateAndPrefixStringValue image.faceId = .ok faceId ∧
      image.faceDetect cv [] = .ok vFaces ∧
      response.content = writeString libc (facesToJson faceId vFaces) := by
  unfold post at h
  split_ifs at h with hbody
  · cases h
    cases hcreated
  · obtain ⟨found, hfound, h⟩ := bind_ok h
    cases found with
    | none =>
      cases h
      cases hcreated
    | some image =>
      obtain ⟨faceId, hfaceId, h⟩ := bind_ok h
      obtain ⟨vFaces, hfaces, h⟩ := bind_ok h
      cases h
      exact ⟨image, faceId, vFaces, hfound, hfaceId, hfaces, rfl⟩

theorem jsonStringToImage_faceId {libc : LibC Double} {cv : OpenCV Mat} {body : Bytes}
    {image : Image Mat} (h : jsonStringToImage libc cv body = .ok (some image)) {ok : Bool}
    {members : List (Bytes × Value Double)}
    (hparse : parseFromStream libc body = .ok (ok, .objectValue members)) :
    (memberOrNull "faceId" members).asString libc = .ok image.faceId := by
  unfold jsonStringToImage at h
  rw [stringToJson_eq hparse, ok_bind] at h
  obtain ⟨image', himage, h⟩ := bind_ok h
  cases h
  unfold jsonToImage at himage
  simp only [member_objectValue, ok_bind] at himage
  obtain ⟨faceId, hfaceId, himage⟩ := bind_ok himage
  have heq : image.faceId = faceId := by
    split_ifs at himage
    · obtain ⟨text, -, himage⟩ := bind_ok himage
      obtain ⟨mat, -, himage⟩ := bind_ok himage
      cases himage
      rfl
    · cases himage
      rfl
  rw [heq]
  exact hfaceId

theorem saysRect_faceToJson (face : Rect) : SaysRect face (faceToJson face : Value Double) := by
  rw [faceToJson_eq]
  exact ⟨_, rfl, ⟨_, rfl, Int32.toInt_toInt64 _⟩, ⟨_, rfl, Int32.toInt_toInt64 _⟩,
    ⟨_, rfl, Int32.toInt_toInt64 _⟩, ⟨_, rfl, Int32.toInt_toInt64 _⟩⟩

theorem findMember_faces (faceId : PrefixedString) (faces : Value Double) :
    findMember (ascii "faces") [(ascii "faceId", .stringValue faceId), (ascii "faces", faces)] =
      some faces := by
  have hne : ascii "faceId" ≠ ascii "faces" := by decide
  rw [findMember, if_neg hne, findMember, if_pos rfl]

/-- The value built for the response says what it should unless the `int` overflows. -/
theorem saysFaces_facesToJson_iff (faceId : PrefixedString) (vFaces : List Rect) :
    SaysFaces faceId.val vFaces (facesToJson faceId vFaces : Value Double) ↔
      vFaces.length < 2 ^ 31 := by
  rw [facesToJson_eq]
  constructor
  · rintro ⟨members, text, faces, heq, -, -, hfaces, hall⟩
    cases heq
    rw [findMember_faces] at hfaces
    have hlen := hall.length_eq
    rw [← Value.arrayValue.inj (Option.some.inj hfaces)] at hlen
    have hlt : toInt vFaces.length < 2 ^ 31 := Int.bmod_lt (by decide)
    simp only [List.length_map, List.length_take] at hlen
    omega
  · intro h
    rw [toInt_of_lt _ h, Int.toNat_natCast, List.take_length]
    have hall : List.Forall₂ SaysRect vFaces (vFaces.map faceToJson : List (Value Double)) := by
      rw [List.forall₂_map_right_iff]
      exact List.forall₂_same.mpr fun face _ => saysRect_faceToJson face
    exact ⟨_, faceId, _, rfl, if_pos rfl, rfl, findMember_faces _ _, hall⟩

/-- Writing the value for the response and parsing it again. -/
theorem parse_facesToJson_iff (libc : LibC Double) {faceId : PrefixedString}
    (h : WellFormed faceId.val) (vFaces : List Rect) :
    (∃ root, parseFromStream libc (writeString libc (facesToJson faceId vFaces)) = .ok (true, root) ∧
      SaysFaces faceId.val vFaces root) ↔ vFaces.length < 2 ^ 31 := by
  rw [parseFromStream_writeString libc (by decide) (printable_facesToJson h vFaces)]
  constructor
  · rintro ⟨root, hroot, hsays⟩
    cases hroot
    exact (saysFaces_facesToJson_iff faceId vFaces).mp hsays
  · intro hlen
    exact ⟨_, rfl, (saysFaces_facesToJson_iff faceId vFaces).mpr hlen⟩

/-- A client that parses the response has the faces of the detector, in order, exactly while `int` can
count them. -/
theorem post_roundTrip_iff (libc : LibC Double) (cv : OpenCV Mat) (body : Bytes)
    (response : RestResponse) (hpost : post libc cv body .new = .ok response)
    (hcreated : response.status = some .kCreated) (ok : Bool)
    (members : List (Bytes × Value Double))
    (hparse : parseFromStream libc body = .ok (ok, .objectValue members)) (faceId : Bytes)
    (hfaceId : FaceIdText (memberOrNull "faceId" members) faceId) (vFaces : List Rect)
    (hfaces : Detected libc cv body vFaces) :
    (∃ root, parseFromStream libc response.content = .ok (true, root) ∧
      SaysFaces faceId vFaces root) ↔ vFaces.length < 2 ^ 31 := by
  obtain ⟨image, text, vFaces', himage, htext, hdetected, hcontent⟩ := post_created hpost hcreated
  obtain ⟨image', himage', hdetected'⟩ := hfaces
  rw [himage] at himage'
  cases himage'
  rw [hdetected] at hdetected'
  cases hdetected'
  have hstring := jsonStringToImage_faceId himage hparse
  have hasString := hstring
  rw [faceIdText_asString libc hfaceId] at hstring
  cases hstring
  have hlen : image.faceId.length ≤ maxStringLength := (asString_ends libc _).of_ok hasString
  rw [duplicateAndPrefixStringValue_ok _ hlen] at htext
  cases htext
  rw [hcontent]
  exact parse_facesToJson_iff libc (faceIdText_wellFormed hfaceId) vFaces

/-- A request with a face id and a picture. -/
def sampleRequest : Bytes := ascii "\x7b\"faceId\":1,\"imageData\":\"QUJD\"\x7d"

def sampleFaceId : PrefixedString := ⟨ascii "1", by decide⟩

/-- The answer to it. -/
def sampleResponse (vFaces : List Rect) : RestResponse where
  status := some .kCreated
  content := writeString LibC.integersOnly (facesToJson sampleFaceId vFaces)
  media_type := ascii "application/json"
  charset := ascii "utf-8"

theorem post_sampleRequest (vFaces : List Rect) :
    post LibC.integersOnly (OpenCV.detecting vFaces) sampleRequest .new =
      .ok (sampleResponse vFaces) := by
  have himage : jsonStringToImage LibC.integersOnly (OpenCV.detecting vFaces) sampleRequest =
      .ok (some { faceId := ascii "1", matInput := false }) := rfl
  unfold post
  rw [if_neg (by decide), himage, ok_bind]
  rfl

theorem post_roundTrip_negative_corner :
    ∃ root, parseFromStream LibC.integersOnly (sampleResponse [⟨-1, 2, 30, 40⟩]).content =
      .ok (true, root) ∧ SaysFaces (ascii "1") [⟨-1, 2, 30, 40⟩] root :=
  (post_roundTrip_iff LibC.integersOnly (OpenCV.detecting [⟨-1, 2, 30, 40⟩]) sampleRequest
    (sampleResponse [⟨-1, 2, 30, 40⟩]) (post_sampleRequest _) rfl true _ rfl (ascii "1")
    (FaceIdText.int 1) [⟨-1, 2, 30, 40⟩] ⟨_, rfl, rfl⟩).mpr (by decide)

/-- From 2^31 rectangles on, `(int)vFaces.size()` is not their number. -/
theorem post_roundTrip_overflow :
    ¬ ∀ (vFaces : List Rect) (response : RestResponse),
      post LibC.integersOnly (OpenCV.detecting vFaces) sampleRequest .new = .ok response →
        ∃ root, parseFromStream LibC.integersOnly response.content = .ok (true, root) ∧
          SaysFaces (ascii "1") vFaces root := by
  intro hall
  have hformed : WellFormed sampleFaceId.val := wellFormed_of_ascii (by simp [sampleFaceId, ascii, ch])
  have hshort : ∀ vFaces : List Rect, vFaces.length < 2 ^ 31 := by
    intro vFaces
    obtain ⟨root, hroot, hsays⟩ := hall vFaces _ (post_sampleRequest vFaces)
    have hiff := parse_facesToJson_iff LibC.integersOnly hformed vFaces
    have hroot' : parseFromStream LibC.integersOnly
      (writeString LibC.integersOnly (facesToJson sampleFaceId vFaces)) = .ok (true, root) := hroot
    have hsays' : SaysFaces sampleFaceId.val vFaces root := hsays
    exact hiff.mp ⟨root, hroot', hsays'⟩
  have hlen := hshort (List.replicate (2 ^ 31) ⟨0, 0, 1, 1⟩)
  rw [List.length_replicate] at hlen
  exact lt_irrefl _ hlen

end FaceDetection

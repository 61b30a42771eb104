import FaceDetection.Json.Root
import FaceDetection.Json.Text
import FaceDetection.Service

/-!
# What `Post` answers

`StringToJson` drops the success flag of the parse and `JsonStringToImage` looks at the value only,
so the answer to a body that does not parse depends on the root that the failed parse leaves.
-/

open FaceDetection.Json

namespace FaceDetection

variable {Double Mat : Type}

/-! ## The path of a request -/

theorem stringToJson_eq {libc : LibC Double} {body : Bytes} {ok : Bool} {root : Value Double}
    (h : parseFromStream libc body = .ok (ok, root)) : stringToJson libc body = .ok root := by
  unfold stringToJson
  rw [h]
  rfl

theorem member_objectValue (key : Bytes) (members : List (Bytes × Value Double)) :
    (Value.objectValue members).member key = .ok ((findMember key members).getD .nullValue) := rfl

/-- Neither an array nor an object: what `asString` converts. -/
def isScalar : Value Double → Bool
  | .arrayValue _ => false
  | .objectValue _ => false
  | _ => true

/-- The member `name`, or null when there is none. -/
def memberOrNull (name : String) (members : List (Bytes × Value Double)) : Value Double :=
  (findMember (ascii name) members).getD .nullValue

theorem isScalar_of_asString {libc : LibC Double} {value : Value Double} {s : Bytes}
    (h : value.asString libc = .ok s) : isScalar value = true := by
  cases value <;> first | rfl | cases h

/-- The two members are scalars, so `JsonToImage` converts them. -/
def ReadableMembers (members : List (Bytes × Value Double)) : Prop :=
  isScalar (memberOrNull "faceId" members) = true ∧
    isScalar (memberOrNull "imageData" members) = true

/-- A root that `JsonStringToImage` reads to the end. -/
def Readable (root : Value Double) : Prop :=
  root = .nullValue ∨ ∃ members, root = .objectValue members ∧ ReadableMembers members

theorem readableMembers_of_jsonToImage {libc : LibC Double} {cv : OpenCV Mat} {image : Image Mat}
    {members : List (Bytes × Value Double)}
    (h : jsonToImage libc cv (.objectValue members) = .ok image) : ReadableMembers members := by
  unfold jsonToImage at h
  simp only [member_objectValue] at h
  obtain ⟨_, hmember, h⟩ := bind_ok h
  cases hmember
  obtain ⟨faceId, hfaceId, h⟩ := bind_ok h
  obtain ⟨_, hmember, h⟩ := bind_ok h
  cases hmember
  refine ⟨isScalar_of_asString hfaceId, ?_⟩
  split_ifs at h with hnull
  · obtain ⟨text, htext, -⟩ := bind_ok h
    exact isScalar_of_asString htext
  · unfold memberOrNull
    cases hdata : (findMember (ascii "imageData") members).getD .nullValue <;>
      first | rfl | simp [hdata, Value.isNull] at hnull

/-- What `JsonStringToImage` has read when it returns. `JsonToImage` reads members, so it throws on a
root that is neither an object nor null. -/
theorem jsonStringToImage_ok {libc : LibC Double} {cv : OpenCV Mat} {body : Bytes}
    {found : Option (Image Mat)} (h : jsonStringToImage libc cv body = .ok found) :
    ∃ ok root, parseFromStream libc body = .ok (ok, root) ∧ Readable root ∧
      (found = none ↔ root = .nullValue) := by
  obtain ⟨json, hjson, h⟩ := bind_ok h
  obtain ⟨⟨ok, root⟩, hparse, hroot⟩ := bind_ok hjson
  cases hroot
  refine ⟨ok, json, hparse, ?_⟩
  cases json with
  | nullValue => cases h; exact ⟨Or.inl rfl, by simp⟩
  | objectValue members =>
    obtain ⟨image, himage, h⟩ := bind_ok h
    cases h
    exact ⟨Or.inr ⟨members, rfl, readableMembers_of_jsonToImage himage⟩, by simp⟩
  | _ => cases h

theorem post_ok {libc : LibC Double} {cv : OpenCV Mat} {body : Bytes}
    {response response' : RestResponse} (hbody : body ≠ [])
    (h : post libc cv body response = .ok response') :
    ∃ ok root, parseFromStream libc body = .ok (ok, root) ∧ Readable root ∧
      ((root = .nullValue ∧ response' = { response with status := some .kBadRequest }) ∨
        (root ≠ .nullValue ∧ ∃ faceId vFaces, response' =
          { status := some .kCreated, content := writeString libc (facesToJson faceId vFaces),
            media_type := ascii "application/json", charset := ascii "utf-8" })) := by
  unfold post at h
  rw [if_neg hbody] at h
  obtain ⟨found, hfound, h⟩ := bind_ok h
  obtain ⟨ok, root, hparse, hreadable, hnull⟩ := jsonStringToImage_ok hfound
  refine ⟨ok, root, hparse, hreadable, ?_⟩
  cases found with
  | none => cases h; exact Or.inl ⟨hnull.mp rfl, rfl⟩
  | some image =>
    obtain ⟨faceId, -, h⟩ := bind_ok h
    obtain ⟨vFaces, -, h⟩ := bind_ok h
    cases h
    exact Or.inr ⟨fun heq => by simpa using hnull.mpr heq, faceId, vFaces, rfl⟩

/-! ## The status -/

/-- The parse of `body` reports success. -/
def Parses (libc : LibC Double) (body : Bytes) : Prop :=
  ∃ root, parseFromStream libc body = .ok (true, root)

/-- The parse of `body` reports success with a root that is not null. -/
def ParsesNonNull (libc : LibC Double) (body : Bytes) : Prop :=
  ∃ root, parseFromStream libc body = .ok (true, root) ∧ root.isNull = false

/-- The response carries a text of the JSON writer. -/
def HasJsonContent (libc : LibC Double) (response : RestResponse) : Prop :=
  response.content ≠ [] ∧ ∃ json, response.content = writeString libc json

/-- What a response owes to its request. -/
structure StatusContract (libc : LibC Double) (body : Bytes) (response : RestResponse) : Prop where
  assigned : response.status ≠ none
  created : response.status = some .kCreated ∧ HasJsonContent libc response ↔ ParsesNonNull libc body
  rejected : ¬ ParsesNonNull libc body →
    response = { RestResponse.new with status := some .kBadRequest }

theorem writeString_objectValue_ne_nil (libc : LibC Double) (members : List (Bytes × Value Double)) :
    writeString libc (.objectValue members) ≠ [] := by
  cases members with
  | nil => unfold writeString writeValue; decide
  | cons member members =>
    unfold writeString writeValue writeWithIndent
    simp [ascii]

/-- `Post` keeps to its statuses exactly on the bodies that parse, or whose first token opens no object.
An empty body leaves the status unset. -/
theorem post_statusContract_iff (libc : LibC Double) (cv : OpenCV Mat) (body : Bytes)
    (response : RestResponse) (h : post libc cv body .new = .ok response) :
    StatusContract libc body response ↔
      body ≠ [] ∧ (Parses libc body ∨ opensObject body = false) := by
  by_cases hbody : body = []
  · subst hbody
    cases h
    exact iff_of_false (fun hc => hc.assigned rfl) (by simp)
  obtain ⟨ok, root, hparse, hreadable, hanswer⟩ := post_ok hbody h
  have hflag : Parses libc body ↔ ok = true := by
    constructor
    · rintro ⟨root', hparse'⟩
      rw [hparse] at hparse'
      cases hparse'
      rfl
    · rintro rfl
      exact ⟨root, hparse⟩
  have hnonnull : ParsesNonNull libc body ↔ ok = true ∧ root.isNull = false := by
    constructor
    · rintro ⟨root', hparse', hnull⟩
      rw [hparse] at hparse'
      cases hparse'
      exact ⟨rfl, hnull⟩
    · rintro ⟨rfl, hnull⟩
      exact ⟨root, hparse, hnull⟩
  simp only [hflag, hbody, ne_eq, not_false_eq_true, true_and]
  rcases hanswer with ⟨rfl, rfl⟩ | ⟨hobject, faceId, vFaces, rfl⟩
  · -- A null root: 400 is right, whatever the flag says.
    have hno : ¬ ParsesNonNull libc body := by rw [hnonnull]; simp [Value.isNull]
    have hopens : opensObject body = false := by
      rcases parse_root hparse with ⟨-, members, hmembers⟩ | ⟨hopens, -⟩
      · cases hmembers
      · exact hopens
    refine iff_of_true ⟨by simp, iff_of_false (by simp) hno, fun _ => rfl⟩ (Or.inr hopens)
  · obtain ⟨members, rfl, -⟩ := hreadable.resolve_left hobject
    have hopens : opensObject body = true := by
      rcases parse_root hparse with ⟨hopens, -⟩ | ⟨-, hother, -⟩
      · exact hopens
      · exact absurd rfl (hother members)
    have hcontent : HasJsonContent libc
        { status := some .kCreated, content := writeString libc (facesToJson faceId vFaces),
          media_type := ascii "application/json", charset := ascii "utf-8" } :=
      ⟨writeString_objectValue_ne_nil libc _, _, rfl⟩
    rw [hopens]
    simp only [Bool.true_eq_false, or_false]
    constructor
    · intro hcontract
      exact ((hnonnull.mp (hcontract.created.mp ⟨rfl, hcontent⟩))).1
    · intro hok
      have hyes : ParsesNonNull libc body := hnonnull.mpr ⟨hok, rfl⟩
      exact ⟨by simp, iff_of_true ⟨rfl, hcontent⟩ hyes, fun hno => absurd hyes hno⟩

theorem post_statusContract_iff_empty_object :
    StatusContract LibC.integersOnly (ascii "\x7b\x7d")
      { status := some .kCreated
        content := ascii "\x7b\n\t\"faceId\" : \"\",\n\t\"faces\" : []\n\x7d"
        media_type := ascii "application/json"
        charset := ascii "utf-8" } :=
  (post_statusContract_iff LibC.integersOnly OpenCV.blank (ascii "\x7b\x7d") _ rfl).mpr
    ⟨by decide, Or.inl ⟨_, rfl⟩⟩

/-- A body cut off after its first byte gets a detection result. -/
theorem post_statusContract_cutOff :
    ¬ ∀ (body : Bytes) (response : RestResponse),
      post LibC.integersOnly OpenCV.blank body .new = .ok response →
        StatusContract LibC.integersOnly body response := by
  intro hall
  have hcontract := hall (ascii "\x7b") _ rfl
  obtain ⟨root, hparse, -⟩ := hcontract.created.mp ⟨rfl, by decide, _, rfl⟩
  have hfailed : parseFromStream LibC.integersOnly (ascii "\x7b") =
      .ok (false, .objectValue []) := rfl
  rw [hfailed] at hparse
  cases hparse

/-! ## Exceptions -/

theorem valueToStringInt_length (value : Int64) : (valueToStringInt value).length ≤ 21 := by
  have hdigits : ∀ v : Int64, (uintToString v.toInt.toNat).length ≤ 20 := by
    intro v
    have hlt := v.toInt_lt
    exact uintToString_length _ 20 (by omega) (by omega)
  unfold valueToStringInt
  split_ifs
  · have hmin := uintToString_length (2 ^ 63 - 1 + 1) 20 (by omega) (by omega)
    simp only [List.length_cons]
    omega
  · have hneg := hdigits (-value)
    simp only [List.length_cons]
    omega
  · exact le_trans (hdigits value) (by omega)

theorem valueToStringReal_length (libc : LibC Double) (value : Double) :
    (valueToStringReal libc value).length ≤ 26 := by
  have hbuffer := libc.snprintf_length value
  unfold valueToStringReal
  simp only
  split_ifs
  · decide
  · decide
  · decide
  · simp only [List.length_append, List.length_map]
    exact Nat.add_le_add hbuffer (by decide : (ascii ".0").length ≤ 2)
  · simp only [List.length_map]
    omega

/-- Every text that `asString` gives fits a string value again. -/
theorem asString_ends (libc : LibC Double) (value : Value Double) :
    Ends (isScalar value = true) (value.asString libc) fun s => s.length ≤ maxStringLength := by
  have hmax : 26 ≤ maxStringLength := by decide
  cases value with
  | nullValue => exact Ends.ok (by simp)
  | intValue i => exact Ends.ok (le_trans (valueToStringInt_length i) (by omega))
  | uintValue u =>
    have hlen := uintToString_length u.toNat 20 (by omega) (lt_trans u.toNat_lt (by omega))
    exact Ends.ok (le_trans hlen (by omega))
  | realValue d => exact Ends.ok (le_trans (valueToStringReal_length libc d) hmax)
  | stringValue p => exact Ends.ok p.property
  | booleanValue b => cases b <;> exact Ends.ok (le_trans (by decide) hmax)
  | arrayValue elements => exact Ends.error (by simp) (by simp [isScalar])
  | objectValue members => exact Ends.error (by simp) (by simp [isScalar])

/-- So does every body that opens as many arrays as the stack limit and has something in the last. -/
theorem post_throws_of_deep (libc : LibC Double) (cv : OpenCV Mat) {s : Bytes}
    (hs : (s.dropWhile isSpace).head? ≠ some (ch ']')) (response : RestResponse) :
    post libc cv (List.replicate stackLimit (ch '[') ++ s) response =
      .error (.runtimeError "Exceeded stackLimit in readValue().") := by
  have hread := readValue_deep libc stackLimit hs .nullValue
    (r := Reader.start (List.replicate stackLimit (ch '[') ++ s)) ⟨rfl, rfl⟩
  have hparse : parseFromStream libc (List.replicate stackLimit (ch '[') ++ s) =
      .error (.runtimeError "Exceeded stackLimit in readValue().") := by
    unfold parseFromStream parse
    change (readValue libc stackLimit .nullValue (Reader.start _) >>= _) >>= _ = _
    rw [hread]
    rfl
  have hbody : List.replicate stackLimit (ch '[') ++ s ≠ [] :=
    List.append_ne_nil_of_left_ne_nil (List.cons_ne_nil _ _) s
  unfold post
  rw [if_neg hbody]
  unfold jsonStringToImage stringToJson
  rw [hparse]
  rfl

end FaceDetection

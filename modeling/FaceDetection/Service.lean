import FaceDetection.Base64.Decode
import FaceDetection.Json.Reader
import FaceDetection.Json.Writer

/-!
# `FaceDetectionService`

`Post` and what it calls. OpenCV and the C library are parameters. Log lines are left out.
-/

open FaceDetection.Json FaceDetection.Base64

namespace FaceDetection

structure Rect where
  x : Int32
  y : Int32
  width : Int32
  height : Int32
  deriving DecidableEq, Repr

/-- OpenCV as the service uses it. A call may throw. `matrix` is a default-constructed `Mat`, which
is empty. -/
structure OpenCV (Mat : Type) where
  matrix : Mat
  imdecode : Bytes → Except Fault Mat
  empty : Mat → Bool
  equalizeHist : Mat → Except Fault Mat
  detectMultiScale : Mat → Except Fault (List Rect)
  empty_matrix : empty matrix = true

/-- What OpenCV does with bytes that are no picture: every matrix is empty. -/
def OpenCV.blank : OpenCV Unit where
  matrix := ()
  imdecode _ := .ok ()
  empty _ := true
  equalizeHist _ := .ok ()
  detectMultiScale _ := .ok []
  empty_matrix := rfl

/-- A detector that finds `vFaces` in every picture. A matrix says whether it is empty. -/
def OpenCV.detecting (vFaces : List Rect) : OpenCV Bool where
  matrix := true
  imdecode _ := .ok false
  empty mat := mat
  equalizeHist mat := .ok mat
  detectMultiScale _ := .ok vFaces
  empty_matrix := rfl

structure Image (Mat : Type) where
  faceId : Bytes
  matInput : Mat

inductive Status where
  | kOK
  | kCreated
  | kBadRequest
  deriving DecidableEq, Repr

/-- `status` is `none` while it is not initialised. -/
structure RestResponse where
  status : Option Status
  content : Bytes
  media_type : Bytes
  charset : Bytes
  deriving DecidableEq

def RestResponse.new : RestResponse := { status := none, content := [], media_type := [], charset := [] }

variable {Double Mat : Type} (libc : LibC Double) (cv : OpenCV Mat)

/-! ## From the request to an image -/

/-- The success flag of `parseFromStream` only decides whether the errors are logged. -/
def stringToJson (s : Bytes) : Except Fault (Value Double) := do
  let (_, json) ← parseFromStream libc s
  return json

def Image.setImageData (image : Image Mat) (sImageDataBase64 : Bytes) :
    Except Fault (Image Mat) := do
  let matInput ← cv.imdecode (base64Decode sImageDataBase64)
  return { image with matInput := matInput }

def jsonToImage (json : Value Double) : Except Fault (Image Mat) := do
  let faceId ← (← json.member (ascii "faceId")).asString libc
  let image : Image Mat := { faceId := faceId, matInput := cv.matrix }
  let imageData ← json.member (ascii "imageData")
  if !imageData.isNull then
    image.setImageData cv (← imageData.asString libc)
  else
    return image

def jsonStringToImage (sJson : Bytes) : Except Fault (Option (Image Mat)) := do
  let json ← stringToJson libc sJson
  if json.isNull then return none
  return some (← jsonToImage libc cv json)

/-! ## From an image to the response -/

def Image.faceDetect (image : Image Mat) (vFaces : List Rect) : Except Fault (List Rect) := do
  if cv.empty image.matInput then return vFaces
  cv.detectMultiScale (← cv.equalizeHist image.matInput)

/-- `jsonFace` of the loop in `Post`. -/
def faceToJson (face : Rect) : Value Double :=
  .objectValue
    (setMember (ascii "y") (.intValue face.y.toInt64)
      (setMember (ascii "x") (.intValue face.x.toInt64)
        (setMember (ascii "height") (.intValue face.height.toInt64)
          (setMember (ascii "width") (.intValue face.width.toInt64) []))))

/-- The loop of `Post` from face `i` on: `rest` are the rectangles from there, `n` is
`(int)vFaces.size()`. -/
def appendFaces (n : Int) : Int → List Rect → List (Value Double) → List (Value Double)
  | _, [], faces => faces
  | i, face :: rest, faces =>
    if i < n then appendFaces n (i + 1) rest (faces ++ [faceToJson face]) else faces

/-- The response object for the faces found. -/
def facesToJson (faceId : PrefixedString) (vFaces : List Rect) : Value Double :=
  .objectValue
    (setMember (ascii "faces") (.arrayValue (appendFaces (toInt vFaces.length) 0 vFaces []))
      (setMember (ascii "faceId") (.stringValue faceId) []))

def post (sRequestContent : Bytes) (response : RestResponse) : Except Fault RestResponse := do
  if sRequestContent = [] then return response
  match ← jsonStringToImage libc cv sRequestContent with
  | some image =>
    let faceId ← duplicateAndPrefixStringValue image.faceId
    let vFaces ← image.faceDetect cv []
    return {
      status := some .kCreated
      content := writeString libc (facesToJson faceId vFaces)
      media_type := ascii "application/json"
      charset := ascii "utf-8" }
  | none => return { response with status := some .kBadRequest }

end FaceDetection

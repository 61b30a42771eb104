import FaceDetection.Interleave
import FaceDetection.Webapp.Database
import FaceDetection.Webapp.Ruby

/-!
# `ImagesController`

`create` and `destroy` as processes over the database and the directory `tmp/storage`. A step ends
where the action touches either of them or calls another program. Gems and ImageMagick are
parameters. `puts` and the texts of responses are left out.
-/

open FaceDetection.Interleave FaceDetection.Json

namespace FaceDetection.Webapp

/-- What the controller calls. `none` is an exception. `data` is what `active_storage_support` reads
out of a data URL. -/
structure Gems (Picture : Type) where
  parse : Bytes → Option RubyValue
  toJson : Bytes → Bytes
  inspect : RubyValue → Bytes
  data : Bytes → Option Bytes
  openImage : Bytes → Option Picture
  crop : Picture → Bytes → Option Picture
  write : Picture → Bytes
  data_write : ∀ picture, data (dataUrl (encode64 (write picture))) = some (write picture)

/-- Pictures that are their own files, and a detector's answer that is always the same. `crop` notes
the geometry behind the picture. -/
def Gems.stub (faces : List RubyValue) : Gems Bytes where
  parse _ := some (.hash [(ascii "faces", .array faces)])
  toJson := quoted
  inspect _ := []
  data url := some (decode64 (url.drop (dataUrl []).length))
  openImage file := some file
  crop picture geometry := some (picture ++ geometry)
  write picture := picture
  data_write picture := by
    unfold dataUrl
    rw [List.append_nil, List.drop_left, decode64_encode64]

/-- `files` has the contents of `tmp/storage` by name. The blobs of Active Storage are elsewhere, under
`storage`, and belong to `db`. -/
structure World where
  db : Database
  files : Bytes → Option Bytes

def World.writeFile (world : World) (name content : Bytes) : World :=
  { world with files := Function.update world.files name (some content) }

def World.deleteFile (world : World) (name : Bytes) : World :=
  { world with files := Function.update world.files name none }

/-! ## Parameters of the form -/

/-- What a form can give for an attachment: a file, or the signed id of a blob. A bad signature has
no blob. -/
inductive Attachable where
  | file (blob : Blob)
  | signedId (blobId : Option Nat)

/-- `image_params`, as the columns cast them, and `base64img`. -/
structure Form where
  image : Image
  uploads : List (AttachmentName × Attachable)
  base64img : Option Bytes

def Form.takenImage (form : Form) : Bytes := form.base64img.getD []

/-- What a column of type `integer` holds. -/
def fits (n : Int) : Bool := -2 ^ 31 ≤ n ∧ n < 2 ^ 31

def Image.fits (image : Image) : Bool :=
  [image.width, image.height, image.xPosition, image.yPosition].all fun column =>
    column.all Webapp.fits

/-! ## The answer of the detector -/

structure FaceInformation where
  height : RubyValue
  width : RubyValue
  x : RubyValue
  y : RubyValue

variable {Picture : Type} (gems : Gems Picture)

/-- From the response to the last face. `some none` is an empty list of faces. -/
def lastFace (response : Option Bytes) : Option (Option FaceInformation) := do
  let message ← (← gems.parse (← response)).index (ascii "faces")
  if (← message.size) > 0 then
    let faceInformation ← message.last
    let height ← faceInformation.index (ascii "height")
    let width ← faceInformation.index (ascii "width")
    let x ← faceInformation.index (ascii "x")
    let y ← faceInformation.index (ascii "y")
    return some { height := height, width := width, x := x, y := y }
  else
    return none

/-- The argument of `crop`. -/
def geometry (face : FaceInformation) : Bytes :=
  face.height.toS gems.inspect ++ ascii "x" ++ face.width.toS gems.inspect ++ ascii "+" ++
    face.x.toS gems.inspect ++ ascii "+" ++ face.y.toS gems.inspect

/-- The arguments of `update!`. -/
structure Columns where
  width : Int
  height : Int
  xPosition : Int
  yPosition : Int
  deriving DecidableEq, Repr

def FaceInformation.columns (face : FaceInformation) : Option Columns := do
  let width ← face.width.toI
  let height ← face.height.toI
  let xPosition ← face.x.toI
  let yPosition ← face.y.toI
  return { width := width, height := height, xPosition := xPosition, yPosition := yPosition }

def Columns.fits (columns : Columns) : Bool :=
  [columns.width, columns.height, columns.xPosition, columns.yPosition].all Webapp.fits

def Columns.write (columns : Columns) (image : Image) : Image :=
  { image with
    width := some columns.width
    height := some columns.height
    xPosition := some columns.xPosition
    yPosition := some columns.yPosition }

/-- A face that the detector reported, with the request and the response it came in. -/
structure Detection where
  request : Bytes
  response : Option Bytes
  face : FaceInformation
  found : lastFace gems response = some (some face)

/-! ## `create` -/

/-- Where `face_detection` stands: the step it takes next. -/
inductive Point where
  | attachOriginal
  | request
  | openTemp (detection : Detection gems)
  | writeTemp (detection : Detection gems) (imgData : Bytes)
  | openImage (detection : Detection gems)
  | crop (detection : Detection gems) (tempIm : Picture)
  | writeFace (detection : Detection gems) (faceIm : Picture)
  | readFace (detection : Detection gems)
  | attachFace (detection : Detection gems) (file : Bytes)
  | deleteFace (detection : Detection gems)
  | update (detection : Detection gems)

/-- Where `create` stands. `new` has the attachments that `Image.new` still has to assign, and the
blobs of those that it has assigned. -/
inductive Stage where
  | new (rest : List (AttachmentName × Attachable)) (pending : List (AttachmentName × Nat))
  | save (pending : List (AttachmentName × Nat))
  | faceDetection (id : Nat) (point : Point gems)
  | respond (id : Nat) (detection : Option (Detection gems))
  | created (id : Nat) (detection : Option (Detection gems))
  | rejected

/-- What the outside decides in a step: whether the call raises, how much of a file it has written
by then, and what the detector answers. A response without a body has `none`. -/
structure Choice where
  fails : Bool
  written : Option Nat
  response : Option Bytes

def tempFileName (id : Nat) : Bytes := ascii "temp_image_" ++ uintToString id ++ ascii ".png"

def tempFaceFileName (id : Nat) : Bytes := ascii "temp_face_image_" ++ uintToString id ++ ascii ".png"

def originalBlob (data : Bytes) : Blob :=
  { filename := ascii "original.png", contentType := ascii "image/png", data := data }

def faceBlob (data : Bytes) : Blob :=
  { filename := ascii "face.png", contentType := ascii "image/png", data := data }

/-- A step of `face_detection`. -/
def faceDetection (choice : Choice) (world : World) (id : Nat) (takenImage : Bytes) :
    Point gems → Option (World × Stage gems)
  | .attachOriginal => do
    let data ← gems.data takenImage
    let db := world.db.attach id .originalImage (originalBlob data)
    return ({ world with db := db }, .faceDetection id .request)
  | .request =>
    match h : lastFace gems choice.response with
    | some (some face) =>
      let detection : Detection gems :=
        { request := requestBody gems.toJson id (payload takenImage)
          response := choice.response
          face := face
          found := h }
      some (world, .faceDetection id (.openTemp detection))
    | some none => some (world, .respond id none)
    | none => none
  | .openTemp detection => do
    let imgData := decode64 (← payload takenImage)
    return (world.writeFile (tempFileName id) [], .faceDetection id (.writeTemp detection imgData))
  | .writeTemp detection imgData =>
    some (world.writeFile (tempFileName id) imgData, .faceDetection id (.openImage detection))
  | .openImage detection => do
    let tempIm ← gems.openImage (← world.files (tempFileName id))
    return (world, .faceDetection id (.crop detection tempIm))
  | .crop detection tempIm => do
    let faceIm ← gems.crop tempIm (geometry gems detection.face)
    return (world, .faceDetection id (.writeFace detection faceIm))
  | .writeFace detection faceIm =>
    some (world.writeFile (tempFaceFileName id) (gems.write faceIm),
      .faceDetection id (.readFace detection))
  | .readFace detection => do
    let file ← world.files (tempFaceFileName id)
    return (world, .faceDetection id (.attachFace detection file))
  | .attachFace detection file => do
    let data ← gems.data (dataUrl (encode64 file))
    let db := world.db.attach id .faceImage (faceBlob data)
    return ({ world with db := db }, .faceDetection id (.deleteFace detection))
  | .deleteFace detection =>
    some (world.deleteFile (tempFaceFileName id), .faceDetection id (.update detection))
  | .update detection => do
    let columns ← detection.face.columns
    if columns.fits then
      return ({ world with db := world.db.updateImage id columns.write }, .respond id (some detection))
    else none

/-- A step of `create`. -/
def Form.next (form : Form) (choice : Choice) (world : World) :
    Stage gems → Option (World × Stage gems)
  | .new [] pending => some (world, .save pending)
  | .new ((name, .file blob) :: rest) pending =>
    some ({ world with db := world.db.upload blob },
      .new rest (pending ++ [(name, world.db.blobs.next)]))
  | .new ((name, .signedId blobId) :: rest) pending => do
    let blobId ← blobId
    let _ ← world.db.blobs.row blobId
    return (world, .new rest (pending ++ [(name, blobId)]))
  | .save pending =>
    if blank form.image.name then some (world, .rejected)
    else if form.image.fits then
      let id := world.db.images.next
      some ({ world with db := world.db.saveImage form.image pending },
        if blank form.base64img then .respond id none else .faceDetection id .attachOriginal)
    else none
  | .faceDetection id point => faceDetection gems choice world id form.takenImage point
  | .respond id detection => some (world, .created id detection)
  | .created .. => none
  | .rejected => none

variable {gems}

def Stage.ended : Stage gems → Bool
  | .created .. => true
  | .rejected => true
  | _ => false

/-- A write that fails may leave part of the file. -/
def World.writePart (world : World) (choice : Choice) (name content : Bytes) : World :=
  match choice.written with
  | some n => world.writeFile name (content.take n)
  | none => world

/-- What a step that raises leaves behind. -/
def Stage.interrupt (choice : Choice) (world : World) : Stage gems → World
  | .faceDetection id (.writeTemp _ imgData) => world.writePart choice (tempFileName id) imgData
  | .faceDetection id (.writeFace _ faceIm) =>
    world.writePart choice (tempFaceFileName id) (gems.write faceIm)
  | _ => world

/-- `raised`: an exception has ended the action, in the step that `stage` is about. -/
structure Create (gems : Gems Picture) where
  form : Form
  stage : Stage gems
  raised : Bool

def Create.start (form : Form) : Create gems :=
  { form := form, stage := .new form.uploads [], raised := false }

def Create.step (choice : Choice) (world : World) (create : Create gems) :
    Option (World × Create gems) :=
  if create.raised || create.stage.ended then none
  else if choice.fails then
    some (create.stage.interrupt choice world, { create with raised := true })
  else
    match create.form.next gems choice world create.stage with
    | some (world', stage) => some (world', { create with stage := stage })
    | none => some (world, { create with raised := true })

/-! ## `destroy` -/

inductive DestroyStage where
  | find
  | destroy
  | respond
  | destroyed
  deriving DecidableEq

structure Destroy where
  id : Nat
  stage : DestroyStage
  raised : Bool

def Destroy.start (id : Nat) : Destroy := { id := id, stage := .find, raised := false }

def Destroy.step (choice : Choice) (world : World) (destroy : Destroy) : Option (World × Destroy) :=
  if destroy.raised then none
  else
    match destroy.stage, choice.fails with
    | .destroyed, _ => none
    | _, true => some (world, { destroy with raised := true })
    | .find, false =>
      match world.db.images.row destroy.id with
      | some _ => some (world, { destroy with stage := .destroy })
      | none => some (world, { destroy with raised := true })
    | .destroy, false =>
      some ({ world with db := world.db.destroyImage destroy.id }, { destroy with stage := .respond })
    | .respond, false => some (world, { destroy with stage := .destroyed })

/-! ## All requests -/

inductive Request (gems : Gems Picture) where
  | create (create : Create gems)
  | destroy (destroy : Destroy)

def Request.step (choice : Choice) (world : World) :
    Request gems → Option (World × Request gems)
  | .create action => (action.step choice world).map fun (world', action') => (world', .create action')
  | .destroy action => (action.step choice world).map fun (world', action') => (world', .destroy action')

def Request.ended : Request gems → Bool
  | .create action => action.raised || action.stage.ended
  | .destroy action => action.raised || action.stage = .destroyed

/-- A request that has not begun. -/
def Request.Fresh : Request gems → Prop
  | .create action => ∃ form, action = Create.start form
  | .destroy action => ∃ id, action = Destroy.start id

/-! ## Runs on an empty installation -/

def World.empty : World := { db := Database.empty, files := fun _ => none }

/-- What the page sends for a picture. -/
def pageForm (base64img : Bytes) : Form where
  image :=
    { name := some (ascii "photo"), width := none, height := none, xPosition := none, yPosition := none }
  uploads := []
  base64img := some (dataUrl base64img)

/-- The face in the answer that the controller test stubs. -/
def stubbedFace : RubyValue :=
  .hash [(ascii "width", .string (ascii "20")), (ascii "height", .string (ascii "30")),
    (ascii "x", .string (ascii "50")), (ascii "y", .string (ascii "50"))]

/-- A step in which no call raises. The detector answers with a body. -/
def Choice.goes : Choice := { fails := false, written := none, response := some [] }

def Choice.raises : Choice := { fails := true, written := none, response := none }

end FaceDetection.Webapp

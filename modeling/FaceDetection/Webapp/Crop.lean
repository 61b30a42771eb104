import FaceDetection.Webapp.Failures

/-!
# The record and the picture of the face

`update!` gets the four numbers of the last face, and `crop` gets them in a geometry. ImageMagick reads
a geometry as width, height, left, top; the controller writes the height first.
-/

open FaceDetection.Interleave FaceDetection.Json FaceDetection.Base64

namespace FaceDetection.Webapp

/-! ## Pictures with pixels -/

/-- A picture has pixels inside its bounds and nowhere else. -/
@[ext]
structure Raster (Pixel : Type) where
  width : Nat
  height : Nat
  pixel : Nat → Nat → Option Pixel
  bounded : ∀ i j, (pixel i j).isSome = true ↔ i < width ∧ j < height

variable {Pixel : Type}

/-- The part of a picture of that size with its top-left corner at `x`, `y`. What would lie outside
is cut off. -/
def Raster.region (picture : Raster Pixel) (w h x y : Nat) : Raster Pixel where
  width := min w (picture.width - x)
  height := min h (picture.height - y)
  pixel i j :=
    if i < min w (picture.width - x) ∧ j < min h (picture.height - y) then
      picture.pixel (x + i) (y + j)
    else none
  bounded := by
    intro i j
    split_ifs with hij
    · have hinside := (picture.bounded (x + i) (y + j)).mpr (by omega)
      simp [hinside, hij]
    · rw [Option.isSome_none]
      simp only [Bool.false_eq_true, false_iff]
      exact hij

theorem region_transposed_iff {picture : Raster Pixel} {w h x y : Nat} (hx : x + w ≤ picture.width)
    (hy : y + h ≤ picture.height) : picture.region h w x y = picture.region w h x y ↔ w = h := by
  constructor
  · intro heq
    have hwidth : min h (picture.width - x) = min w (picture.width - x) :=
      congrArg Raster.width heq
    have hheight : min w (picture.height - y) = min h (picture.height - y) :=
      congrArg Raster.height heq
    omega
  · rintro rfl
    rfl

/-- What is relied on of ImageMagick: a geometry is `WIDTHxHEIGHT+X+Y`, and a file that was written
opens as the same picture. -/
structure ImageMagick (gems : Gems (Raster Pixel)) : Prop where
  crop : ∀ (picture : Raster Pixel) {w h x y : Nat} {width height left top : Bytes},
    Digits width w → Digits height h → Digits left x → Digits top y → 0 < w → 0 < h →
      x < picture.width → y < picture.height →
        gems.crop picture (width ++ ascii "x" ++ height ++ ascii "+" ++ left ++ ascii "+" ++ top) =
          some (picture.region w h x y)
  open_write : ∀ picture, gems.openImage (gems.write picture) = some picture

/-! ## Numbers in the answer -/

/-- An integer or a decimal string. -/
def Number (value : RubyValue) (n : Nat) : Prop :=
  value = .int n ∨ ∃ text, value = .string text ∧ Digits text n

def HasNumber (face : RubyValue) (key : String) (n : Nat) : Prop :=
  ∃ value, face.index (ascii key) = some value ∧ Number value n

variable {gems : Gems (Raster Pixel)}

/-- The response is JSON with a list of faces, and its last face has these numbers. -/
def Reports (gems : Gems (Raster Pixel)) (response : Option Bytes) (w h x y : Nat) : Prop :=
  ∃ body message faces last, response = some body ∧ gems.parse body = some message ∧
    message.index (ascii "faces") = some (.array faces) ∧ faces.getLast? = some last ∧
      HasNumber last "width" w ∧ HasNumber last "height" h ∧ HasNumber last "x" x ∧
        HasNumber last "y" y

theorem Number.toS {value : RubyValue} {n : Nat} (h : Number value n) (inspect : RubyValue → Bytes) :
    Digits (value.toS inspect) n := by
  rcases h with rfl | ⟨text, rfl, htext⟩
  · change Digits (decimal n) n
    rw [decimal_natCast]
    exact digits_uintToString n
  · exact htext

theorem Number.toI {value : RubyValue} {n : Nat} (h : Number value n) : value.toI = some (n : Int) := by
  rcases h with rfl | ⟨text, rfl, htext⟩
  · rfl
  · change some (stringToI text) = some (n : Int)
    rw [stringToI_digits htext]

/-- The four numbers of the face that the controller reads. -/
structure FaceNumbers (face : FaceInformation) (w h x y : Nat) : Prop where
  width : Number face.width w
  height : Number face.height h
  x : Number face.x x
  y : Number face.y y

theorem lastFace_numbers {response : Option Bytes} {face : FaceInformation} {w h x y : Nat}
    (hfound : lastFace gems response = some (some face)) (hreports : Reports gems response w h x y) :
    FaceNumbers face w h x y := by
  obtain ⟨body, message, faces, last, rfl, hparse, hfaces, hlast, ⟨vw, hvw, hw⟩, ⟨vh, hvh, hh⟩,
    ⟨vx, hvx, hx⟩, ⟨vy, hvy, hy⟩⟩ := hreports
  have hsize : faces.length > 0 := by
    apply List.length_pos_of_ne_nil
    rintro rfl
    cases hlast
  have hface : lastFace gems (some body) =
      some (some { height := vh, width := vw, x := vx, y := vy }) := by
    simp [lastFace, hparse, hfaces, RubyValue.size, RubyValue.last, hsize, hlast, hvw, hvh, hvx, hvy]
  rw [hface] at hfound
  cases hfound
  exact ⟨hw, hh, hx, hy⟩

theorem FaceNumbers.columns {face : FaceInformation} {w h x y : Nat} (hface : FaceNumbers face w h x y) :
    face.columns = some { width := w, height := h, xPosition := x, yPosition := y } := by
  simp [FaceInformation.columns, hface.width.toI, hface.height.toI, hface.x.toI, hface.y.toI]

/-- The height stands where ImageMagick reads the width. -/
theorem FaceNumbers.crop (magick : ImageMagick gems) {face : FaceInformation} {w h x y : Nat}
    (hface : FaceNumbers face w h x y) (hw : 0 < w) (hh : 0 < h) {picture : Raster Pixel}
    (hx : x < picture.width) (hy : y < picture.height) :
    gems.crop picture (geometry gems face) = some (picture.region h w x y) :=
  magick.crop picture (hface.height.toS _) (hface.width.toS _) (hface.x.toS _) (hface.y.toS _) hh hw
    hx hy

/-! ## One rectangle -/

/-- The record and its `face_image` are about this rectangle of the picture. -/
structure SameRectangle (gems : Gems (Raster Pixel)) (db : Database) (k : Nat) (picture : Raster Pixel)
    (w h x y : Nat) : Prop where
  record : ∃ image, db.images.row k = some image ∧ image.width = some (w : Int) ∧
    image.height = some (h : Int) ∧ image.xPosition = some (x : Int) ∧
      image.yPosition = some (y : Int)
  picture : ∃ b blob, db.Attached k .faceImage b ∧ db.blobs.row b = some blob ∧
    gems.openImage blob.data = some (picture.region w h x y)

variable {form : Form} {before : Database} {detection : Detection gems} {picture : Raster Pixel}

/-- What stands under `face_image` at the end. -/
theorem withFace_attached (form : Form) (before : Database) (detection : Detection gems) (b : Nat) :
    (form.withFace before detection).Attached before.images.next .faceImage b ↔
      b = (form.withOriginal gems before).blobs.next := by
  unfold Form.withFace
  rw [Database.attached_attach]
  simp

theorem withFace_blob (before : Database) {faceIm : Raster Pixel}
    (hface : form.facePicture gems detection.face = some faceIm) :
    (form.withFace before detection).blobs.row (form.withOriginal gems before).blobs.next =
      some (faceBlob (gems.write faceIm)) := by
  unfold Form.withFace
  rw [hface]
  exact Table.row_insert_next ..

theorem withFace_row (form : Form) (before : Database) (detection : Detection gems) :
    (form.withFace before detection).images.row before.images.next = some form.image := by
  change (form.saved before).images.row before.images.next = some form.image
  rw [Form.saved, Database.images_saveImage, images_assignAll, Table.row_insert_next]

theorem sameRectangle_withFields_iff (magick : ImageMagick gems) {w h x y : Nat}
    (hnumbers : FaceNumbers detection.face w h x y) (hsubmitted : form.submitted gems = some picture)
    (hw : 0 < w) (hh : 0 < h) (hx : x + w ≤ picture.width) (hy : y + h ≤ picture.height) :
    SameRectangle gems (form.withFields before detection) before.images.next picture w h x y ↔
      w = h := by
  have hface : form.facePicture gems detection.face = some (picture.region h w x y) := by
    simp only [Form.facePicture, hsubmitted]
    exact hnumbers.crop magick hw hh (by omega) (by omega)
  have hblob := withFace_blob before hface
  have hattached := withFace_attached form before detection
  rw [← region_transposed_iff hx hy]
  unfold Form.withFields
  rw [hnumbers.columns]
  constructor
  · rintro ⟨-, b, blob, hb, hrow, hopen⟩
    obtain rfl := (hattached b).mp hb
    have hsame := hblob.symm.trans hrow
    cases hsame
    rw [faceBlob, magick.open_write] at hopen
    exact Option.some.inj hopen
  · intro hregion
    refine ⟨?_, _, _, (hattached _).mpr rfl, hblob, ?_⟩
    · have hrow := withFace_row form before detection
      simp [Database.updateImage, hrow, Columns.write]
    · rw [faceBlob, magick.open_write, hregion]

/-- The record has the rectangle of the last face. The picture under `face_image` is of the same
rectangle only when the face is a square. -/
theorem sameRectangle_iff (magick : ImageMagick gems) {before world : World} {create : Create gems}
    (hrun : Runs Create.step (before, Create.start form) (world, create)) {k : Nat}
    (hcreated : create.stage = .created k (some detection)) {w h x y : Nat}
    (hreports : Reports gems detection.response w h x y)
    (hsubmitted : form.submitted gems = some picture) (hw : 0 < w) (hh : 0 < h)
    (hx : x + w ≤ picture.width) (hy : y + h ≤ picture.height) :
    SameRectangle gems world.db k picture w h x y ↔ w = h := by
  obtain ⟨-, hprogress⟩ := progress_run hrun
  obtain ⟨hdb, hid, -, -⟩ := hprogress
  rw [hcreated] at hdb hid
  obtain rfl := hid k rfl
  rw [hdb]
  exact sameRectangle_withFields_iff magick (lastFace_numbers detection.found hreports) hsubmitted hw hh
    hx hy

/-! ## Pictures of one colour -/

def Raster.plain (width height : Nat) : Raster Unit where
  width := width
  height := height
  pixel i j := if i < width ∧ j < height then some () else none
  bounded := by
    intro i j
    split_ifs with hij
    · simp [hij]
    · rw [Option.isSome_none]
      simp only [Bool.false_eq_true, false_iff]
      exact hij

theorem raster_eq_plain (picture : Raster Unit) : picture = Raster.plain picture.width picture.height := by
  refine Raster.ext rfl rfl ?_
  funext i j
  have hbounded := picture.bounded i j
  unfold Raster.plain
  simp only
  split_ifs with hij
  · obtain ⟨_, hpixel⟩ := Option.isSome_iff_exists.mp (hbounded.mpr hij)
    exact hpixel
  · exact Option.not_isSome_iff_eq_none.mp fun hsome => hij (hbounded.mp hsome)

/-- A number and what follows it. -/
def readNumber (s : Bytes) : Nat × Bytes :=
  (digitsValue (s.takeWhile isDigit) 0, s.dropWhile isDigit)

theorem readNumber_digits {text : Bytes} {n : Nat} (h : Digits text n) {rest : Bytes}
    (hrest : ∀ c ∈ rest.head?, isDigit c = false) : readNumber (text ++ rest) = (n, rest) := by
  obtain ⟨-, hall, hvalue⟩ := h
  unfold readNumber
  rw [List.takeWhile_append_of_pos hall, List.dropWhile_append_of_pos hall]
  cases rest with
  | nil => simp [hvalue]
  | cons c rest =>
    have hc := hrest c rfl
    rw [List.takeWhile_cons_of_neg (by simp [hc]), List.dropWhile_cons_of_neg (by simp [hc]),
      List.append_nil, hvalue]

/-- Files that say `WIDTHxHEIGHT`, for pictures of one colour. -/
def Gems.plain (faces : List RubyValue) : Gems (Raster Unit) where
  parse _ := some (.hash [(ascii "faces", .array faces)])
  toJson := quoted
  inspect _ := []
  data url := some (decode64 (url.drop (dataUrl []).length))
  openImage file :=
    let (width, rest) := readNumber file
    let (height, _) := readNumber (rest.drop 1)
    some (Raster.plain width height)
  crop picture geometry :=
    let (width, rest) := readNumber geometry
    let (height, rest) := readNumber (rest.drop 1)
    let (x, rest) := readNumber (rest.drop 1)
    let (y, _) := readNumber (rest.drop 1)
    some (picture.region width height x y)
  write picture := uintToString picture.width ++ ascii "x" ++ uintToString picture.height
  data_write picture := by
    unfold dataUrl
    rw [List.append_nil, List.drop_left, decode64_encode64]

theorem plain_imageMagick (faces : List RubyValue) : ImageMagick (Gems.plain faces) := by
  have hmarks : isDigit (ch 'x') = false ∧ isDigit (ch '+') = false := by decide
  obtain ⟨hcross, hplus⟩ := hmarks
  have hread : ∀ {text : Bytes} {n : Nat} {c : UInt8} {rest : Bytes}, isDigit c = false →
      Digits text n → readNumber (text ++ c :: rest) = (n, c :: rest) := by
    intro text n c rest hc htext
    apply readNumber_digits htext
    intro d hd
    cases hd
    exact hc
  have hlast : ∀ {text : Bytes} {n : Nat}, Digits text n → readNumber text = (n, []) := by
    intro text n htext
    have hnil : readNumber (text ++ []) = (n, []) := readNumber_digits htext (by simp)
    rwa [List.append_nil] at hnil
  refine ⟨?_, ?_⟩
  · intro picture w h x y width height left top hwidth hheight hleft htop _ _ _ _
    have hgeometry : width ++ ascii "x" ++ height ++ ascii "+" ++ left ++ ascii "+" ++ top =
        width ++ ch 'x' :: (height ++ ch '+' :: (left ++ ch '+' :: top)) := by
      simp [ascii]
    rw [hgeometry]
    simp only [Gems.plain, hread hcross hwidth, hread hplus hheight, hread hplus hleft, hlast htop,
      List.drop_one, List.tail_cons]
  · intro picture
    have hfile : uintToString picture.width ++ ascii "x" ++ uintToString picture.height =
        uintToString picture.width ++ ch 'x' :: uintToString picture.height := by
      simp [ascii]
    simp only [Gems.plain]
    rw [hfile, hread hcross (digits_uintToString _)]
    simp only [List.drop_one, List.tail_cons, hlast (digits_uintToString _)]
    rw [← raster_eq_plain]

/-! ## The face of the controller test -/

/-- A picture of 100 times 100 pixels. -/
def squarePicture : Form := pageForm (encode (ascii "100x100"))

def cropEnd (faces : List RubyValue) : World × Create (Gems.plain faces) :=
  run Create.step (List.replicate 15 Choice.goes) (World.empty, Create.start squarePicture)

theorem submitted_squarePicture (faces : List RubyValue) :
    squarePicture.submitted (Gems.plain faces) = some (Raster.plain 100 100) := by
  have hpayload : payload squarePicture.takenImage = some (encode (ascii "100x100")) :=
    payload_encode (by decide)
  unfold Form.submitted
  rw [hpayload]
  change (Gems.plain faces).openImage (decode64 (encode (ascii "100x100"))) = _
  rw [decode64_encode]
  have hread : readNumber (ascii "100x100") = (100, ascii "x100") := by decide
  have hrest : readNumber ((ascii "x100").drop 1) = (100, []) := by decide
  simp only [Gems.plain, hread, hrest]

theorem reports_stubbedFace (faces : List RubyValue) (h : faces.getLast? = some stubbedFace) :
    Reports (Gems.plain faces) (some []) 20 30 50 50 :=
  ⟨[], _, faces, stubbedFace, rfl, rfl, rfl, h, ⟨_, rfl, Or.inr ⟨_, rfl, digits_uintToString 20⟩⟩,
    ⟨_, rfl, Or.inr ⟨_, rfl, digits_uintToString 30⟩⟩, ⟨_, rfl, Or.inr ⟨_, rfl, digits_uintToString 50⟩⟩,
    ⟨_, rfl, Or.inr ⟨_, rfl, digits_uintToString 50⟩⟩⟩

theorem cropEnd_created : ∃ detection, (cropEnd [stubbedFace]).2.stage = .created 1 (some detection) ∧
    detection.response = some [] := by
  have hid : (cropEnd [stubbedFace]).2.stage.id? = some 1 := by decide
  have hended : (cropEnd [stubbedFace]).2.stage.ended = true := by decide
  have hresponse : (cropEnd [stubbedFace]).2.stage.detection?.map Detection.response =
      some (some []) := by decide
  obtain ⟨detection, hdetection, hresponse⟩ := Option.map_eq_some_iff.mp hresponse
  refine ⟨detection, ?_, hresponse⟩
  generalize (cropEnd [stubbedFace]).2.stage = stage at *
  cases stage with
  | created id found =>
    cases hid
    cases hdetection
    rfl
  | rejected => cases hid
  | _ => cases hended

theorem sameRectangle_iff_stubbedFace :
    SameRectangle (Gems.plain [stubbedFace]) (cropEnd [stubbedFace]).1.db 1 (Raster.plain 100 100)
      20 30 50 50 ↔ 20 = 30 := by
  obtain ⟨detection, hcreated, hresponse⟩ := cropEnd_created
  have hreports : Reports (Gems.plain [stubbedFace]) detection.response 20 30 50 50 := by
    rw [hresponse]
    exact reports_stubbedFace _ rfl
  exact sameRectangle_iff (plain_imageMagick _) (runs_run Create.step _ _) hcreated hreports
    (submitted_squarePicture _) (by decide) (by decide) (by decide) (by decide)

/-- The face that the controller test stubs is 20 wide and 30 high. Its picture is 30 wide. -/
theorem not_sameRectangle_stubbedFace :
    ¬ ∀ (before world : World) (form : Form) (create : Create (Gems.plain [stubbedFace])) (k : Nat)
      (detection : Detection (Gems.plain [stubbedFace])) (w h x y : Nat) (picture : Raster Unit),
      Runs Create.step (before, Create.start form) (world, create) →
        create.stage = .created k (some detection) →
          Reports (Gems.plain [stubbedFace]) detection.response w h x y →
            form.submitted (Gems.plain [stubbedFace]) = some picture → 0 < w → 0 < h →
              x + w ≤ picture.width → y + h ≤ picture.height →
                SameRectangle (Gems.plain [stubbedFace]) world.db k picture w h x y := by
  intro hall
  obtain ⟨detection, hcreated, hresponse⟩ := cropEnd_created
  have hreports : Reports (Gems.plain [stubbedFace]) detection.response 20 30 50 50 := by
    rw [hresponse]
    exact reports_stubbedFace _ rfl
  have hsame : SameRectangle (Gems.plain [stubbedFace]) (cropEnd [stubbedFace]).1.db 1
      (Raster.plain 100 100) 20 30 50 50 :=
    hall _ _ _ _ 1 detection 20 30 50 50 _ (runs_run Create.step _ _) hcreated hreports
      (submitted_squarePicture _) (by decide) (by decide) (by decide) (by decide)
  obtain ⟨-, b, blob, ⟨a, ha⟩, hblob, hopen⟩ := hsame
  have hnext : (cropEnd [stubbedFace]).1.db.attachments.next = 3 := by decide
  have honly : ∀ a < 3, ((cropEnd [stubbedFace]).1.db.attachments.row a).all
      (fun attachment => attachment.name = .originalImage ∨ attachment.blobId = 2) = true := by
    decide
  have hlt := Table.lt_next ha
  rw [hnext] at hlt
  have hb := honly a hlt
  rw [ha] at hb
  obtain rfl : b = 2 := by simpa using hb
  have hdata : ((cropEnd [stubbedFace]).1.db.blobs.row 2).map Blob.data = some (ascii "30x20") := by
    decide
  rw [hblob] at hdata
  have hdata : blob.data = ascii "30x20" := Option.some.inj hdata
  have hread : readNumber (ascii "30x20") = (30, ascii "x20") := by decide
  rw [hdata] at hopen
  simp only [Gems.plain, hread] at hopen
  have hwidth := congrArg Raster.width (Option.some.inj hopen)
  simp [Raster.plain, Raster.region] at hwidth

end FaceDetection.Webapp

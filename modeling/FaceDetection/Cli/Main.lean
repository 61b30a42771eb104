import FaceDetection.Cli.Db
import FaceDetection.Service

/-!
# `main` without `server`

The command line program on one picture. OpenCV and the server are parameters. What it prints is left
out.
-/

namespace FaceDetection.Cli

variable {Mat Rest : Type}

/-- The width and the height of a rectangle. -/
def faceSize (face : Rect) : Nat × Nat := (face.width.toInt.toNat, face.height.toInt.toNat)

/-- OpenCV as the program uses it. A detected rectangle lies in the picture, where `roi` takes it from.
`size` are the width and the height of a picture file. -/
structure Highgui (Mat : Type) where
  imread : Option Bytes → Mat
  cvtColor : Mat → Except Fault Mat
  equalizeHist : Mat → Except Fault Mat
  detectMultiScale : Mat → Except Fault (List Rect)
  roi : Mat → Rect → Except Fault Mat
  cols : Mat → Nat
  rows : Mat → Nat
  jpeg : Mat → Bytes
  size : Bytes → Option (Nat × Nat)
  roi_size : ∀ mat face part, roi mat face = .ok part → (cols part, rows part) = faceSize face
  size_jpeg : ∀ mat, size (jpeg mat) = some (cols mat, rows mat)

/-- The table and the files by path. -/
structure World (Rest : Type) where
  table : Fimage64s Rest
  files : Bytes → Option Bytes

/-- A run: its arguments, and what each call of `imwrite` returns. -/
structure Run where
  sFilePath : Bytes
  sFaceId : Bytes
  imwrite : Nat → Except Fault Bool

/-! ## Paths -/

def sFixedPath : Bytes := ascii "/home/jednipat/works/devops_workshop/facedetection_webapp/public"

/-- `s.substr(0, s.find(pattern))`. Without the pattern it is all of `s`. -/
def before (pattern : Bytes) : Bytes → Bytes
  | [] => []
  | c :: rest => if pattern.isPrefixOf (c :: rest) then [] else c :: before pattern rest

def Run.sFullPath (run : Run) : Bytes := sFixedPath ++ run.sFilePath

def Run.sFaceFilePath (run : Run) : Bytes :=
  sFixedPath ++ before (ascii "image.png") run.sFilePath ++ ascii "face.jpg"

/-! ## The program -/

variable (server : Server Rest) (cv : Highgui Mat) (run : Run)

/-- From the picture to the rectangles. -/
def detect (mInput : Mat) : Except Fault (List Rect) := do
  let mInputGray ← cv.cvtColor mInput
  let mInputGray ← cv.equalizeHist mInputGray
  cv.detectMultiScale mInputGray

/-- The body of the loop for face number `i`. An exception ends the program and leaves the world as it
is by then. -/
def faceRound (mInput : Mat) (i : Nat) (face : Rect) (world : World Rest) : World Rest × Option Fault :=
  match cv.roi mInput face with
  | .error fault => (world, some fault)
  | .ok mCroppedFace =>
    match run.imwrite i with
    | .error fault => (world, some fault)
    | .ok written =>
      -- The program does not look at what `imwrite` returns.
      let files :=
        if written then Function.update world.files run.sFaceFilePath (some (cv.jpeg mCroppedFace))
        else world.files
      match updateFaceInfo server world.table run.sFaceId (ascii "true")
        (uintToString (cv.cols mCroppedFace)) (uintToString (cv.rows mCroppedFace)) with
      | .error fault => ({ world with files := files }, some fault)
      | .ok table => ({ table := table, files := files }, none)

def facesLoop (mInput : Mat) : Nat → List Rect → World Rest → World Rest × Option Fault
  | _, [], world => (world, none)
  | i, face :: rest, world =>
    -- `i` is an `int`: behind 2^31 - 1 it is negative, and as a `size_t` more than any size.
    if i < 2 ^ 31 then
      match faceRound server cv run mInput i face world with
      | (world, none) => facesLoop mInput (i + 1) rest world
      | (world, some fault) => (world, some fault)
    else (world, none)

def main (world : World Rest) : World Rest × Option Fault :=
  let mInput := cv.imread (world.files run.sFullPath)
  match detect cv mInput with
  | .error fault => (world, some fault)
  | .ok faces => facesLoop server cv run mInput 0 faces world

/-! ## What OpenCV does in a run -/

/-- The rectangles of a run, their parts of the picture, and which of the files are written. -/
structure Detects (cv : Highgui Mat) (run : Run) (world : World Rest) where
  faces : List Rect
  crop : Rect → Mat
  written : Nat → Bool
  detected : detect cv (cv.imread (world.files run.sFullPath)) = .ok faces
  cropped : ∀ face ∈ faces, cv.roi (cv.imread (world.files run.sFullPath)) face = .ok (crop face)
  returned : ∀ i, run.imwrite i = .ok (written i)

variable {server cv run} {world : World Rest}

/-- The faces that the loop comes to. -/
def Detects.seen (d : Detects cv run world) : List Rect := d.faces.take (2 ^ 31)

/-- One round: a file if `imwrite` writes it, then the statement if the server reads it. -/
theorem faceRound_eq (sql : server.Reading run.sFaceId) (d : Detects cv run world) (i : Nat)
    {face : Rect} (hface : face ∈ d.faces) (w : World Rest) :
    faceRound server cv run (cv.imread (world.files run.sFullPath)) i face w =
      let files := if d.written i then
          Function.update w.files run.sFaceFilePath (some (cv.jpeg (d.crop face)))
        else w.files
      match sql.search w.table with
      | some picks =>
        ({ table := Update.apply { picks := picks, set := FaceRow.write (faceSize face) } w.table
           files := files }, none)
      | none => ({ w with files := files }, some (.runtimeError "sql::SQLException")) := by
  have hsize := cv.roi_size _ _ _ (d.cropped face hface)
  have hupdate := sql.update (faceSize face) w.table
  rw [← hsize] at hupdate ⊢
  unfold faceRound updateFaceInfo
  rw [d.cropped face hface, d.returned i]
  simp only [hupdate]
  cases sql.search w.table <;> rfl

/-- The statements of a run, one for each face, in the order of the loop. -/
theorem facesLoop_table (sql : server.Reading run.sFaceId) (d : Detects cv run world) (i : Nat)
    (faces : List Rect) (hfaces : ∀ face ∈ faces, face ∈ d.faces) (w : World Rest) :
    (facesLoop server cv run (cv.imread (world.files run.sFullPath)) i faces w).1.table =
      sql.search.updates FaceRow.write ((faces.take (2 ^ 31 - i)).map faceSize) w.table := by
  induction faces generalizing i w with
  | nil => simp [facesLoop, Search.updates]
  | cons face rest ih =>
    unfold facesLoop
    split_ifs with hi
    · obtain ⟨n, hn⟩ : ∃ n, 2 ^ 31 - i = n + 1 := ⟨2 ^ 31 - i - 1, by omega⟩
      have hnext : 2 ^ 31 - (i + 1) = n := by omega
      rw [faceRound_eq sql d i (hfaces face (by simp)), hn, List.take_succ_cons, List.map_cons,
        Search.updates]
      cases sql.search w.table with
      | none => rfl
      | some picks =>
        simp only
        rw [ih (i + 1) (fun face hface => hfaces face (by simp [hface])), hnext]
    · have hnone : 2 ^ 31 - i = 0 := by omega
      rw [hnone]
      rfl

theorem main_table (sql : server.Reading run.sFaceId) (d : Detects cv run world) :
    (main server cv run world).1.table =
      sql.search.updates FaceRow.write (d.seen.map faceSize) world.table := by
  unfold main
  simp only [d.detected]
  exact facesLoop_table sql d 0 d.faces (fun _ h => h) world

end FaceDetection.Cli

import FaceDetection.Webapp.Interference

/-!
# The temporary files

Each create reads back what it wrote itself, so the face it attaches is cut out of its own picture by
its own detector's answer, whatever other requests do in between.
-/

open FaceDetection.Interleave

namespace FaceDetection.Webapp

variable {Picture ι : Type} {gems : Gems Picture}

/-! ## What a create should attach -/

/-- The picture that the controller decodes out of the form. -/
def Form.submitted (gems : Gems Picture) (form : Form) : Option Picture := do
  let base64img ← payload form.takenImage
  gems.openImage (decode64 base64img)

def Form.facePicture (gems : Gems Picture) (form : Form) (face : FaceInformation) :
    Option Picture := do
  let picture ← form.submitted gems
  gems.crop picture (geometry gems face)

def Point.detection? : Point gems → Option (Detection gems)
  | .attachOriginal => none
  | .request => none
  | .openTemp detection => some detection
  | .writeTemp detection _ => some detection
  | .openImage detection => some detection
  | .crop detection _ => some detection
  | .writeFace detection _ => some detection
  | .readFace detection => some detection
  | .attachFace detection _ => some detection
  | .deleteFace detection => some detection
  | .update detection => some detection

def Stage.detection? : Stage gems → Option (Detection gems)
  | .faceDetection _ point => point.detection?
  | .respond _ detection => detection
  | .created _ detection => detection
  | _ => none

/-- The detection whose face has been attached. -/
def Stage.attached? : Stage gems → Option (Detection gems)
  | .faceDetection _ (.deleteFace detection) => some detection
  | .faceDetection _ (.update detection) => some detection
  | .respond _ detection => detection
  | .created _ detection => detection
  | _ => none

/-! ## What a create holds -/

/-- The answer that a create works with is the answer to its own request. -/
def OwnAnswer (form : Form) (stage : Stage gems) : Prop :=
  ∀ id detection, stage.id? = some id → stage.detection? = some detection →
    detection.request = requestBody gems.toJson id (payload form.takenImage)

/-- What a create holds in its variables and reads from its files is its own. -/
def OwnFiles (gems : Gems Picture) (form : Form) (files : Bytes → Option Bytes) : Stage gems → Prop
  | .faceDetection _ (.writeTemp _ imgData) =>
    (payload form.takenImage).map decode64 = some imgData
  | .faceDetection id (.openImage _) =>
    ∃ imgData, (payload form.takenImage).map decode64 = some imgData ∧
      files (tempFileName id) = some imgData
  | .faceDetection _ (.crop _ tempIm) => form.submitted gems = some tempIm
  | .faceDetection _ (.writeFace detection faceIm) =>
    form.facePicture gems detection.face = some faceIm
  | .faceDetection id (.readFace detection) =>
    ∃ faceIm, form.facePicture gems detection.face = some faceIm ∧
      files (tempFaceFileName id) = some (gems.write faceIm)
  | .faceDetection _ (.attachFace detection file) =>
    ∃ faceIm, form.facePicture gems detection.face = some faceIm ∧ file = gems.write faceIm
  | _ => True

/-- The blob holds the face that the create should attach. -/
def IsFace (db : Database) (form : Form) (detection : Detection gems) (b : Nat) : Prop :=
  ∃ faceIm, form.facePicture gems detection.face = some faceIm ∧
    db.blobs.row b = some (faceBlob (gems.write faceIm))

/-- What stands under `face_image` after `attach` is the create's own. -/
def OwnFace (db : Database) (form : Form) (stage : Stage gems) : Prop :=
  ∀ id detection, stage.id? = some id → stage.attached? = some detection →
    ∀ b, db.Attached id .faceImage b → IsFace db form detection b

/-! ## A create keeps its own -/

variable {form : Form} {world world' : World} {stage stage' : Stage gems}

theorem Transition.ownAnswer (h : Transition form world stage world' stage')
    (hown : OwnAnswer form stage) : OwnAnswer form stage' := by
  intro id detection hid hdetection
  cases h with
  | saved => split_ifs at hdetection <;> cases hdetection
  | detected h =>
    cases hid
    cases hdetection
    exact h
  | noFaces => cases hdetection
  | attachedOriginal => cases hdetection
  | assigned => cases hid
  | uploaded => cases hid
  | signed => cases hid
  | invalid => cases hid
  | _ => exact hown id detection hid hdetection

theorem Transition.ownFiles (h : Transition form world stage world' stage')
    (hown : OwnFiles gems form world.files stage) : OwnFiles gems form world'.files stage' := by
  cases h with
  | saved => split_ifs <;> trivial
  | openedTemp h =>
    unfold OwnFiles
    rw [h]
    rfl
  | wroteTemp => exact ⟨_, hown, files_writeFile_self ..⟩
  | openedImage hfile h =>
    obtain ⟨imgData, himgData, hwritten⟩ := hown
    rw [hfile] at hwritten
    cases hwritten
    obtain ⟨base64img, hpayload, rfl⟩ := Option.map_eq_some_iff.mp himgData
    simp only [OwnFiles, Form.submitted, hpayload]
    exact h
  | cropped h =>
    have hsubmitted : form.submitted gems = some _ := hown
    simp only [OwnFiles, Form.facePicture, hsubmitted]
    exact h
  | wroteFace => exact ⟨_, hown, files_writeFile_self ..⟩
  | readFace h =>
    obtain ⟨faceIm, hface, hwritten⟩ := hown
    rw [h] at hwritten
    cases hwritten
    exact ⟨faceIm, hface, rfl⟩
  | _ => trivial

theorem ownFiles_interrupt (choice : Choice) (h : OwnFiles gems form world.files stage) :
    OwnFiles gems form (stage.interrupt choice world).files stage := by
  cases stage with
  | faceDetection id point => cases point <;> exact h
  | _ => exact h

theorem OwnFiles.congr {files files' : Bytes → Option Bytes} (h : OwnFiles gems form files stage)
    (hfiles : ∀ id name, stage.id? = some id → IsTempFile id name → files' name = files name) :
    OwnFiles gems form files' stage := by
  cases stage with
  | faceDetection id point =>
    cases point with
    | openImage detection =>
      obtain ⟨imgData, himgData, hwritten⟩ := h
      rw [← hfiles id _ rfl (Or.inl rfl)] at hwritten
      exact ⟨imgData, himgData, hwritten⟩
    | readFace detection =>
      obtain ⟨faceIm, hface, hwritten⟩ := h
      rw [← hfiles id _ rfl (Or.inr rfl)] at hwritten
      exact ⟨faceIm, hface, hwritten⟩
    | _ => exact h
  | _ => exact h

/-- `encode64` and the gem that reads the data URL give the file back. -/
theorem Transition.ownFace (h : Transition form world stage world' stage')
    (hfiles : OwnFiles gems form world.files stage) (hown : OwnFace world.db form stage) :
    OwnFace world'.db form stage' := by
  intro id detection hid hattached b hb
  cases h with
  | saved => split_ifs at hattached <;> cases hattached
  | attachedFace h =>
    cases hid
    cases hattached
    obtain ⟨faceIm, hface, rfl⟩ := hfiles
    rw [gems.data_write faceIm] at h
    cases h
    rcases Database.attached_attach.mp hb with ⟨-, -, rfl⟩ | ⟨-, hother⟩
    · exact ⟨faceIm, hface, Table.row_insert_next ..⟩
    · exact absurd ⟨rfl, rfl⟩ hother
  | deletedFace => exact hown id detection hid hattached b hb
  | updated => exact hown id detection hid hattached b hb
  | responded => exact hown id detection hid hattached b hb
  | _ => cases hattached

theorem IsFace.keeps {db db' : Database} {k : Nat} {detection : Detection gems} {b : Nat}
    (h : IsFace db form detection b) (hkeeps : Database.Keeps k db db') :
    IsFace db' form detection b := by
  obtain ⟨faceIm, hface, hblob⟩ := h
  exact ⟨faceIm, hface, hkeeps.blobs _ _ hblob⟩

theorem OwnFace.keeps {db db' : Database} (h : OwnFace db form stage)
    (hkeeps : ∀ id, stage.id? = some id → Database.Keeps id db db') : OwnFace db' form stage := by
  intro id detection hid hattached b hb
  rcases (hkeeps id hid).record with ⟨-, hsame⟩ | ⟨-, hnone⟩
  · exact (h id detection hid hattached b ((hsame _ _).mp hb)).keeps (hkeeps id hid)
  · exact absurd hb (hnone _ _)

/-! ## Every create, under every interleaving -/

def Request.Own (world : World) : Request gems → Prop
  | .create action =>
    OwnAnswer action.form action.stage ∧ OwnFiles gems action.form world.files action.stage ∧
      OwnFace world.db action.form action.stage
  | .destroy _ => True

theorem Request.Own.step {choice : Choice} {request request' : Request gems}
    (h : Request.Own world request) (hstep : request.step choice world = some (world', request')) :
    Request.Own world' request' := by
  cases Request.step_move hstep with
  | raised choice' =>
    obtain ⟨hanswer, hfiles, hface⟩ := h
    refine ⟨hanswer, ownFiles_interrupt choice' hfiles, ?_⟩
    rw [db_interrupt]
    exact hface
  | went _ htransition =>
    obtain ⟨hanswer, hfiles, hface⟩ := h
    exact ⟨htransition.ownAnswer hanswer, htransition.ownFiles hfiles,
      htransition.ownFace hfiles hface⟩
  | passed | deleted => trivial

/-- The step of a request with another id spoils nothing. -/
theorem Request.Own.other {choice : Choice} {request request' other : Request gems}
    (h : Request.Own world other) (hstep : request.step choice world = some (world', request'))
    (hlt : ∀ k, other.id? = some k → k < world.db.images.next)
    (hne : ∀ k, other.id? = some k → request.id? ≠ some k) : Request.Own world' other := by
  cases other with
  | create action =>
    obtain ⟨hanswer, hfiles, hface⟩ := h
    refine ⟨hanswer, hfiles.congr ?_, hface.keeps ?_⟩
    · intro k name hk hname
      exact Request.step_files_of_ne hstep hne hk hname
    · intro k hk
      exact Request.step_keeps hstep (hlt k hk) (hne k hk)
  | destroy action => trivial

theorem Request.Fresh.own {request : Request gems} (h : request.Fresh) (world : World) :
    Request.Own world request := by
  cases request with
  | create action =>
    obtain ⟨form, rfl⟩ := h
    refine ⟨?_, trivial, ?_⟩
    · intro id detection hid
      cases hid
    · intro id detection hid
      cases hid
  | destroy action => trivial

variable [DecidableEq ι]

theorem Start.own {s t : System ι World (Request gems)} (h : Start s)
    (hreach : Reaches Request.step s t) (i : ι) : Request.Own t.shared (t.process i) := by
  apply hreach.each (P := Request.Own) fun t ht => h.distinct ht
  · intro i
    exact (h.fresh i).own s.shared
  · intro t i choice shared l _ hown hstep
    exact hown.step hstep
  · intro t i j choice shared l hdistinct hij hown hstep
    apply hown.other hstep (hdistinct.lt_next j)
    intro k hj hi
    exact hij (hdistinct.unique i j k hi hj)

/-! ## What a step depends on -/

/-- Two worlds that differ in other requests' files only. -/
def Agree (id? : Option Nat) (world world' : World) : Prop :=
  world'.db = world.db ∧
    ∀ id name, id? = some id → IsTempFile id name → world'.files name = world.files name

theorem Agree.writeFile {id : Nat} (h : Agree (some id) world world') (name content : Bytes) :
    Agree (some id) (world.writeFile name content) (world'.writeFile name content) := by
  refine ⟨h.1, ?_⟩
  intro k other hk hother
  by_cases hname : other = name
  · subst hname
    rw [files_writeFile_self, files_writeFile_self]
  · rw [files_writeFile_ne _ _ hname, files_writeFile_ne _ _ hname]
    exact h.2 k other hk hother

theorem Agree.deleteFile {id : Nat} (h : Agree (some id) world world') (name : Bytes) :
    Agree (some id) (world.deleteFile name) (world'.deleteFile name) := by
  refine ⟨h.1, ?_⟩
  intro k other hk hother
  by_cases hname : other = name
  · subst hname
    simp [World.deleteFile]
  · rw [files_deleteFile_ne _ hname, files_deleteFile_ne _ hname]
    exact h.2 k other hk hother

/-- The same outcome, and the same own files. -/
def SameOutcome {α : Type} (id? : Option Nat) : Option (World × α) → Option (World × α) → Prop :=
  Option.Rel fun a b => b.2 = a.2 ∧ Agree id? a.1 b.1

theorem Agree.outcome {α : Type} {id? : Option Nat} (h : Agree id? world world') (a : α) :
    SameOutcome id? (some (world, a)) (some (world', a)) :=
  Option.Rel.some ⟨rfl, h⟩

theorem SameOutcome.map {α β : Type} {id? : Option Nat} {x y : Option (World × α)}
    (h : SameOutcome id? x y) (f : α → β) :
    SameOutcome id? (x.map fun (world, a) => (world, f a)) (y.map fun (world, a) => (world, f a)) := by
  cases h with
  | none => exact Option.Rel.none
  | some hab => exact Option.Rel.some ⟨congrArg f hab.1, hab.2⟩

def pairStart : System Bool World (Request (Gems.stub [stubbedFace])) where
  shared := World.empty
  process i := .create (Create.start (pageForm (if i then ascii "QUJD" else ascii "REVG")))

def pairEnd : System Bool World (Request (Gems.stub [stubbedFace])) :=
  runSchedule Request.step (List.replicate 15 [(true, .goes), (false, .goes)]).flatten pairStart

theorem pairStart_start : Start pairStart := start_empty fun _ => ⟨_, rfl⟩

end FaceDetection.Webapp

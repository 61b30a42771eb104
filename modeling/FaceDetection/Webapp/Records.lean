import FaceDetection.Webapp.TempFiles

/-!
# The rows of `images`

The four fields of a face are written twice: from the form when the row is saved, and from the last
face of the detector when `face_image` is already attached. Every row is accounted for by the create
that saved it.
-/

open FaceDetection.Interleave

namespace FaceDetection.Webapp

variable {Picture ι : Type} {gems : Gems Picture}

/-- The form gives a `face_image`. -/
def Form.UploadsFace (form : Form) : Prop := AttachmentName.faceImage ∈ form.uploads.map Prod.fst

/-- The detection that `update!` has written into the row. -/
def Stage.updated? : Stage gems → Option (Detection gems)
  | .respond _ detection => detection
  | .created _ detection => detection
  | _ => none

/-- The row of a create at a stage. -/
def Form.record (form : Form) (stage : Stage gems) : Option Image :=
  match stage.updated? with
  | none => some form.image
  | some detection => detection.face.columns.map fun columns => columns.write form.image

/-- Every attachment of the form is pending until the row is saved. -/
def AllPending (form : Form) : Stage gems → Prop
  | .new rest pending => pending.map Prod.fst ++ rest.map Prod.fst = form.uploads.map Prod.fst
  | .save pending => pending.map Prod.fst = form.uploads.map Prod.fst
  | _ => True

/-- What the database has for a create, unless its row was destroyed. -/
structure Recorded (db : Database) (form : Form) (stage : Stage gems) : Prop where
  pending : AllPending form stage
  row : ∀ id image, stage.id? = some id → db.images.row id = some image →
    form.record stage = some image
  uploaded : ∀ id b, stage.id? = some id → stage.attached? = none → db.Attached id .faceImage b →
    form.UploadsFace
  attached : ∀ id detection, stage.id? = some id → stage.attached? = some detection →
    db.images.row id ≠ none → ∃ b, db.Attached id .faceImage b

variable {form : Form} {world world' : World} {stage stage' : Stage gems}

/-! ## Steps of the create itself -/

theorem recorded_start (db : Database) (form : Form) :
    Recorded db form (.new form.uploads [] : Stage gems) := by
  refine ⟨rfl, ?_, ?_, ?_⟩
  · intro id image hid
    cases hid
  · intro id b hid
    cases hid
  · intro id detection hid
    cases hid

theorem recorded_save (howned : Owned world.db) {pending : List (AttachmentName × Nat)}
    (h : AllPending form (.save pending : Stage gems)) :
    Recorded (world.db.saveImage form.image pending) form
      (if blank form.base64img then .respond world.db.images.next none
        else .faceDetection world.db.images.next .attachOriginal : Stage gems) := by
  have hstage : ∀ P : Stage gems → Prop, P (.respond world.db.images.next none) →
      P (.faceDetection world.db.images.next .attachOriginal) →
        P (if blank form.base64img then .respond world.db.images.next none
          else .faceDetection world.db.images.next .attachOriginal) := by
    intro P hrespond hdetect
    split_ifs
    · exact hrespond
    · exact hdetect
  have hrow : ∀ image, (world.db.saveImage form.image pending).images.row world.db.images.next =
      some image → some form.image = some image := by
    intro image himage
    rwa [Database.images_saveImage, Table.row_insert_next] at himage
  have huploaded : ∀ b, (world.db.saveImage form.image pending).Attached world.db.images.next
      .faceImage b → form.UploadsFace := by
    intro b hb
    rcases Database.attached_attachPending _ _ hb with hmem | ⟨hbefore, -⟩
    · have hname : AttachmentName.faceImage ∈ pending.map Prod.fst :=
        List.mem_map.mpr ⟨_, hmem, rfl⟩
      have hall : pending.map Prod.fst = form.uploads.map Prod.fst := h
      unfold Form.UploadsFace
      rwa [← hall]
    · exact absurd (howned _ _ _ hbefore) (lt_irrefl _)
  apply hstage <;> refine ⟨trivial, ?_, ?_, ?_⟩
  all_goals intro id x hid
  all_goals cases hid
  · exact hrow x
  · intro _ hb
    exact huploaded x hb
  · intro hnone
    cases hnone
  · exact hrow x
  · intro _ hb
    exact huploaded x hb
  · intro hnone
    cases hnone

theorem Recorded.attachOriginal {db : Database} {id : Nat} (blob : Blob)
    (h : Recorded db form (.faceDetection id .attachOriginal : Stage gems)) :
    Recorded (db.attach id .originalImage blob) form (.faceDetection id .request : Stage gems) := by
  refine ⟨trivial, h.row, ?_, ?_⟩
  · intro k b hid hnone hb
    rcases Database.attached_attach.mp hb with ⟨-, hname, -⟩ | ⟨hbefore, -⟩
    · cases hname
    · exact h.uploaded k b hid hnone hbefore
  · intro k detection _ hsome
    cases hsome

theorem Recorded.attachFace {db : Database} {id : Nat} {detection : Detection gems} {file : Bytes}
    (blob : Blob) (h : Recorded db form (.faceDetection id (.attachFace detection file))) :
    Recorded (db.attach id .faceImage blob) form (.faceDetection id (.deleteFace detection)) := by
  refine ⟨trivial, h.row, ?_, ?_⟩
  · intro k b _ hnone
    cases hnone
  · intro k other hid _ _
    cases hid
    exact ⟨_, Database.attached_attach.mpr (Or.inl ⟨rfl, rfl, rfl⟩)⟩

theorem Recorded.update {db : Database} {id : Nat} {detection : Detection gems} {columns : Columns}
    (hcolumns : detection.face.columns = some columns)
    (h : Recorded db form (.faceDetection id (.update detection))) :
    Recorded (db.updateImage id columns.write) form (.respond id (some detection)) := by
  refine ⟨trivial, ?_, ?_, ?_⟩
  · intro k image hid himage
    cases hid
    simp only [Database.updateImage, Table.row_modify_self] at himage
    obtain ⟨before, hbefore, rfl⟩ := Option.map_eq_some_iff.mp himage
    have hform := h.row id before rfl hbefore
    cases hform
    simp [Form.record, Stage.updated?, hcolumns]
  · intro k b _ hnone
    cases hnone
  · intro k other hid _ hrow
    cases hid
    apply h.attached id detection rfl rfl
    intro hnone
    simp [Database.updateImage, hnone] at hrow

/-- A step that leaves the database alone, and the facts about the stage. -/
theorem Recorded.same {db : Database} (h : Recorded db form stage) (hpending : AllPending form stage')
    (hid : stage'.id? = stage.id?) (hupdated : stage'.updated? = stage.updated?)
    (hattached : stage'.attached? = stage.attached?) : Recorded db form stage' := by
  have hrecord : form.record stage' = form.record stage := by
    unfold Form.record
    rw [hupdated]
  refine ⟨hpending, ?_, ?_, ?_⟩
  · intro id image
    rw [hid, hrecord]
    exact h.row id image
  · intro id b
    rw [hid, hattached]
    exact h.uploaded id b
  · intro id detection
    rw [hid, hattached]
    exact h.attached id detection

theorem Transition.recorded (h : Transition form world stage world' stage')
    (howned : Owned world.db) (hrecorded : Recorded world.db form stage) :
    Recorded world'.db form stage' := by
  cases h with
  | assigned =>
    refine hrecorded.same ?_ rfl rfl rfl
    simpa [AllPending] using hrecorded.pending
  | uploaded =>
    have hpending := hrecorded.pending
    refine ⟨by simpa [AllPending] using hpending, ?_, ?_, ?_⟩
    all_goals intro id x hid
    all_goals cases hid
  | signed =>
    refine hrecorded.same ?_ rfl rfl rfl
    simpa [AllPending] using hrecorded.pending
  | saved => exact recorded_save howned hrecorded.pending
  | attachedOriginal => exact hrecorded.attachOriginal _
  | attachedFace => exact hrecorded.attachFace _
  | updated h => exact hrecorded.update h
  | _ => exact hrecorded.same trivial rfl rfl rfl

/-! ## Steps of other requests -/

theorem Recorded.keeps {db db' : Database} (h : Recorded db form stage)
    (hkeeps : ∀ id, stage.id? = some id → Database.Keeps id db db') : Recorded db' form stage := by
  refine ⟨h.pending, ?_, ?_, ?_⟩
  · intro id image hid himage
    rcases (hkeeps id hid).record with ⟨hrow, -⟩ | ⟨hrow, -⟩
    · rw [hrow] at himage
      exact h.row id image hid himage
    · rw [hrow] at himage
      cases himage
  · intro id b hid hnone hb
    rcases (hkeeps id hid).record with ⟨-, hsame⟩ | ⟨-, hgone⟩
    · exact h.uploaded id b hid hnone ((hsame _ _).mp hb)
    · exact absurd hb (hgone _ _)
  · intro id detection hid hattached hrow
    rcases (hkeeps id hid).record with ⟨hsameRow, hsame⟩ | ⟨hgone, -⟩
    · rw [hsameRow] at hrow
      obtain ⟨b, hb⟩ := h.attached id detection hid hattached hrow
      exact ⟨b, (hsame _ _).mpr hb⟩
    · exact absurd hgone hrow

/-! ## Every create, under every interleaving -/

def Request.Recorded (world : World) : Request gems → Prop
  | .create action => Webapp.Recorded world.db action.form action.stage
  | .destroy _ => True

theorem Request.Recorded.step {choice : Choice} {request request' : Request gems}
    (h : Request.Recorded world request) (howned : Owned world.db)
    (hstep : request.step choice world = some (world', request')) :
    Request.Recorded world' request' := by
  cases Request.step_move hstep with
  | raised =>
    unfold Request.Recorded
    rw [db_interrupt]
    exact h
  | went _ htransition => exact htransition.recorded howned h
  | passed | deleted => trivial

variable [DecidableEq ι]

theorem Start.recorded {s t : System ι World (Request gems)} (h : Start s)
    (hreach : Reaches Request.step s t) (i : ι) : Request.Recorded t.shared (t.process i) := by
  apply hreach.each (P := Request.Recorded) fun t ht => h.distinct ht
  · intro i
    have hfresh := h.fresh i
    cases hi : s.process i with
    | create action =>
      rw [hi] at hfresh
      obtain ⟨form, rfl⟩ := hfresh
      exact recorded_start _ form
    | destroy action => trivial
  · intro t i choice shared l hdistinct hrecorded hstep
    exact hrecorded.step hdistinct.owned hstep
  · intro t i j choice shared l hdistinct hij hrecorded hstep
    cases hj : t.process j with
    | create action =>
      rw [hj] at hrecorded
      apply Webapp.Recorded.keeps hrecorded
      intro k hk
      have hid : (t.process j).id? = some k := by
        rw [hj]
        exact hk
      apply Request.step_keeps hstep (hdistinct.lt_next j k hid)
      intro hi
      exact hij (hdistinct.unique i j k hi hid)
    | destroy action => trivial

/-! ## Every row -/

end FaceDetection.Webapp

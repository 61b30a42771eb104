import FaceDetection.Webapp.TempFiles

/-!
# What a create leaves when it ends early

Each save, attach and `update!` commits on its own and nothing takes a commit back. `committed` is the
database of a create at each stage. A create that fails leaves it at the stage where it stood. The
purge jobs of Rails, which run after a request, are not part of it.
-/

open FaceDetection.Interleave

namespace FaceDetection.Webapp

variable {Picture : Type} {gems : Gems Picture}

/-! ## The commits of a create, one by one -/

/-- `Image.new` takes one attachment of the form: a file becomes a blob at once. -/
def assign (state : Database × List (AttachmentName × Nat)) :
    AttachmentName × Attachable → Database × List (AttachmentName × Nat)
  | (name, .file blob) => (state.1.upload blob, state.2 ++ [(name, state.1.blobs.next)])
  | (name, .signedId blobId) => (state.1, state.2 ++ (blobId.map fun b => (name, b)).toList)

def assignAll (before : Database) (uploads : List (AttachmentName × Attachable)) :
    Database × List (AttachmentName × Nat) :=
  uploads.foldl assign (before, [])

def Form.saved (form : Form) (before : Database) : Database :=
  (assignAll before form.uploads).1.saveImage form.image (assignAll before form.uploads).2

def Form.withOriginal (gems : Gems Picture) (form : Form) (before : Database) : Database :=
  (form.saved before).attach before.images.next .originalImage
    (originalBlob ((gems.data form.takenImage).getD []))

def Form.withFace (form : Form) (before : Database) (detection : Detection gems) : Database :=
  (form.withOriginal gems before).attach before.images.next .faceImage
    (faceBlob (((form.facePicture gems detection.face).map gems.write).getD []))

def Form.withFields (form : Form) (before : Database) (detection : Detection gems) : Database :=
  match detection.face.columns with
  | some columns => (form.withFace before detection).updateImage before.images.next columns.write
  | none => form.withFace before detection

/-- The attachments of the form that `Image.new` has taken. -/
def Form.assigned (form : Form) : Stage gems → List (AttachmentName × Attachable)
  | .new rest _ => form.uploads.take (form.uploads.length - rest.length)
  | _ => form.uploads

/-- Everything that a create has committed where it stands. -/
def committed (form : Form) (before : Database) (stage : Stage gems) : Database :=
  match stage with
  | .new .. => (assignAll before (form.assigned stage)).1
  | .save _ => (assignAll before (form.assigned stage)).1
  | .rejected => (assignAll before (form.assigned stage)).1
  | .faceDetection _ .attachOriginal => form.saved before
  | .faceDetection _ (.deleteFace detection) => form.withFace before detection
  | .faceDetection _ (.update detection) => form.withFace before detection
  | .faceDetection _ _ => form.withOriginal gems before
  | .respond _ (some detection) => form.withFields before detection
  | .created _ (some detection) => form.withFields before detection
  | .respond _ none =>
    if blank form.base64img then form.saved before else form.withOriginal gems before
  | .created _ none =>
    if blank form.base64img then form.saved before else form.withOriginal gems before

/-! ## A create alone -/

/-- The attachments that `Image.new` has taken are pending. -/
def Pending (form : Form) (before : Database) : Stage gems → Prop
  | .new rest pending =>
    ∃ done, form.uploads = done ++ rest ∧ pending = (assignAll before done).2
  | .save pending => pending = (assignAll before form.uploads).2
  | .faceDetection .. => blank form.base64img = false
  | _ => True

structure Progress (form : Form) (before : Database) (world : World) (stage : Stage gems) : Prop where
  db : world.db = committed form before stage
  id : ∀ id, stage.id? = some id → id = before.images.next
  pending : Pending form before stage
  files : OwnFiles gems form world.files stage

variable {form : Form} {before : Database} {world world' : World} {stage stage' : Stage gems}

theorem committed_new {done rest : List (AttachmentName × Attachable)}
    {pending : List (AttachmentName × Nat)} (h : form.uploads = done ++ rest) :
    committed form before (.new rest pending : Stage gems) = (assignAll before done).1 := by
  simp [committed, Form.assigned, h]

theorem assignAll_append (before : Database) (done : List (AttachmentName × Attachable))
    (entry : AttachmentName × Attachable) :
    assignAll before (done ++ [entry]) = assign (assignAll before done) entry := by
  simp [assignAll, List.foldl_append]

theorem images_assign (state : Database × List (AttachmentName × Nat))
    (entry : AttachmentName × Attachable) : (assign state entry).1.images = state.1.images := by
  obtain ⟨name, blob | blobId⟩ := entry <;> rfl

theorem images_assignAll (before : Database) (uploads : List (AttachmentName × Attachable)) :
    (assignAll before uploads).1.images = before.images := by
  induction uploads using List.reverseRecOn with
  | nil => rfl
  | append_singleton done entry ih => rw [assignAll_append, images_assign, ih]

theorem progress_start (before : World) (form : Form) :
    Progress form before.db before (.new form.uploads [] : Stage gems) := by
  refine ⟨?_, ?_, ⟨[], rfl, rfl⟩, trivial⟩
  · simp [committed, Form.assigned, assignAll]
  · intro id hid
    cases hid

/-- Each step commits what the next stage has in addition. -/
theorem Progress.next (h : Transition form world stage world' stage')
    (hprogress : Progress form before world stage) : Progress form before world' stage' := by
  have hfiles := h.ownFiles hprogress.files
  obtain ⟨hdb, hid, hpending, hown⟩ := hprogress
  cases h with
  | assigned =>
    obtain ⟨done, hdone, rfl⟩ := hpending
    have hall : form.uploads = done := by simpa using hdone
    rw [committed_new hdone, ← hall] at hdb
    refine ⟨hdb, hid, ?_, hfiles⟩
    rw [← hall]
    rfl
  | @uploaded name blob rest pending =>
    obtain ⟨done, hdone, rfl⟩ := hpending
    have hdone' : form.uploads = (done ++ [(name, .file blob)]) ++ rest := by simpa using hdone
    rw [committed_new hdone] at hdb
    refine ⟨?_, hid, ⟨_, hdone', ?_⟩, hfiles⟩
    · rw [committed_new hdone', assignAll_append, hdb]
      rfl
    · rw [assignAll_append, hdb]
      rfl
  | @signed name blobId blob rest pending =>
    obtain ⟨done, hdone, rfl⟩ := hpending
    have hdone' : form.uploads = (done ++ [(name, .signedId (some blobId))]) ++ rest := by
      simpa using hdone
    rw [committed_new hdone] at hdb
    refine ⟨?_, hid, ⟨_, hdone', ?_⟩, hfiles⟩
    · rw [committed_new hdone', assignAll_append, hdb]
      rfl
    · rw [assignAll_append]
      rfl
  | invalid => exact ⟨hdb, hid, trivial, hfiles⟩
  | @saved pending =>
    have hsaved : world.db.saveImage form.image pending = form.saved before := by
      have hpending : pending = (assignAll before form.uploads).2 := hpending
      have hdb : world.db = (assignAll before form.uploads).1 := hdb
      rw [hpending, hdb]
      rfl
    have hnext : world.db.images.next = before.images.next := by
      have hdb : world.db = (assignAll before form.uploads).1 := hdb
      rw [hdb, images_assignAll]
    split_ifs at hfiles ⊢ with hblank
    · refine ⟨?_, ?_, trivial, hfiles⟩
      · simp only [committed, hblank, if_true]
        exact hsaved
      · rintro id hid
        cases hid
        exact hnext
    · refine ⟨hsaved, ?_, by simpa [Pending] using hblank, hfiles⟩
      rintro id hid
      cases hid
      exact hnext
  | @attachedOriginal id data h =>
    refine ⟨?_, hid, hpending, hfiles⟩
    have hdb : world.db = form.saved before := hdb
    simp only [committed, Form.withOriginal, h, hdb, hid id rfl, Option.getD_some]
  | noFaces =>
    have hblank : blank form.base64img = false := hpending
    refine ⟨?_, hid, trivial, hfiles⟩
    simp only [committed, hblank]
    exact hdb
  | @attachedFace id detection file data h =>
    refine ⟨?_, hid, hpending, hfiles⟩
    obtain ⟨faceIm, hface, rfl⟩ := hown
    rw [gems.data_write faceIm] at h
    cases h
    have hdb : world.db = form.withOriginal gems before := hdb
    simp only [committed, Form.withFace, hface, hdb, hid id rfl, Option.map_some, Option.getD_some]
  | @updated id columns detection h =>
    refine ⟨?_, hid, trivial, hfiles⟩
    have hdb : world.db = form.withFace before detection := hdb
    simp only [committed, Form.withFields, h, hdb, hid id rfl]
  | @responded id detection =>
    refine ⟨?_, hid, trivial, hfiles⟩
    rw [hdb]
    cases detection <;> rfl
  | _ => exact ⟨hdb, hid, hpending, hfiles⟩

theorem progress_run {before world : World} {create : Create gems}
    (hrun : Runs Create.step (before, Create.start form) (world, create)) :
    create.form = form ∧ Progress form before.db world create.stage := by
  have hall := hrun.invariant (P := fun state => state.2.form = form ∧
    Progress form before.db state.1 state.2.stage)
  apply hall
  · exact ⟨rfl, progress_start before form⟩
  · rintro choice ⟨world, create⟩ ⟨world', create'⟩ ⟨rfl, hprogress⟩ hstep
    cases Create.step_move hstep with
    | raised choice' =>
      refine ⟨rfl, ?_, hprogress.id, hprogress.pending, ownFiles_interrupt choice' hprogress.files⟩
      rw [db_interrupt]
      exact hprogress.db
    | went _ htransition => exact ⟨rfl, hprogress.next htransition⟩

/-! ## What was there before -/

/-- Every row, attachment and blob is as it was. What is new has new keys. -/
structure Kept (before after : Database) : Prop where
  images : Table.Extends before.images after.images
  attachments : Table.Extends before.attachments after.attachments
  blobs : Table.Extends before.blobs after.blobs

theorem Kept.upload {after : Database} (h : Kept before after) (blob : Blob) :
    Kept before (after.upload blob) :=
  ⟨h.images, h.attachments, h.blobs.insert blob⟩

/-- A record that is new has no attachment to replace. -/
theorem Kept.attachBlob {after : Database} (h : Kept before after) (howned : Owned before) {id : Nat}
    (hid : before.images.next ≤ id) (name : AttachmentName) (b : Nat) :
    Kept before (after.attachBlob id name b) := by
  refine ⟨h.images, (h.attachments.deleteIf ?_).insert _, h.blobs⟩
  rintro a ⟨n, recordId, blobId⟩ ha
  have hlt := howned recordId n blobId ⟨a, ha⟩
  have hne : recordId ≠ id := by omega
  simp [hne]

theorem Kept.attach {after : Database} (h : Kept before after) (howned : Owned before) {id : Nat}
    (hid : before.images.next ≤ id) (name : AttachmentName) (blob : Blob) :
    Kept before (after.attach id name blob) :=
  (h.upload blob).attachBlob howned hid name _

theorem Kept.attachPending {after : Database} (h : Kept before after) (howned : Owned before)
    {id : Nat} (hid : before.images.next ≤ id) (pending : List (AttachmentName × Nat)) :
    Kept before (after.attachPending id pending) := by
  induction pending generalizing after with
  | nil => exact h
  | cons entry pending ih => exact ih (h.attachBlob howned hid _ _)

theorem kept_assignAll (before : Database) (uploads : List (AttachmentName × Attachable)) :
    Kept before (assignAll before uploads).1 := by
  induction uploads using List.reverseRecOn with
  | nil => exact ⟨Table.Extends.refl _, Table.Extends.refl _, Table.Extends.refl _⟩
  | append_singleton done entry ih =>
    rw [assignAll_append]
    obtain ⟨name, blob | blobId⟩ := entry
    · exact ih.upload blob
    · exact ih

theorem kept_committed (howned : Owned before) (form : Form) (stage : Stage gems) :
    Kept before (committed form before stage) := by
  have hassigned := fun uploads => kept_assignAll before uploads
  have hsaved : Kept before (form.saved before) := by
    have hall := hassigned form.uploads
    unfold Form.saved Database.saveImage
    apply Kept.attachPending _ howned hall.images.next
    exact ⟨hall.images.insert _, hall.attachments, hall.blobs⟩
  have horiginal : Kept before (form.withOriginal gems before) := hsaved.attach howned le_rfl _ _
  have hface : ∀ detection : Detection gems, Kept before (form.withFace before detection) :=
    fun detection => horiginal.attach howned le_rfl _ _
  have hfields : ∀ detection : Detection gems, Kept before (form.withFields before detection) := by
    intro detection
    unfold Form.withFields
    split
    · exact ⟨(hface detection).images.modify le_rfl _, (hface detection).attachments,
        (hface detection).blobs⟩
    · exact hface detection
  unfold committed
  split
  · exact hassigned _
  · exact hassigned _
  · exact hassigned _
  · exact hsaved
  · exact hface _
  · exact hface _
  · exact horiginal
  · exact hfields _
  · exact hfields _
  · split_ifs
    · exact hsaved
    · exact horiginal
  · split_ifs
    · exact hsaved
    · exact horiginal

/-! ## When nothing is left -/

theorem images_next_committed (form : Form) (before : Database) {stage : Stage gems} {id : Nat}
    (hid : stage.id? = some id) :
    (committed form before stage).images.next = before.images.next + 1 := by
  have hsaved : (form.saved before).images.next = before.images.next + 1 := by
    rw [Form.saved, Database.images_saveImage, Table.next_insert, images_assignAll]
  have hfields : ∀ detection : Detection gems,
      (form.withFields before detection).images.next = before.images.next + 1 := by
    intro detection
    unfold Form.withFields
    split <;> exact hsaved
  unfold committed
  split
  · cases hid
  · cases hid
  · cases hid
  · exact hsaved
  · exact hsaved
  · exact hsaved
  · exact hsaved
  · exact hfields _
  · exact hfields _
  · split_ifs <;> exact hsaved
  · split_ifs <;> exact hsaved

theorem assignAll_eq_self_iff (before : Database) (uploads : List (AttachmentName × Attachable)) :
    (assignAll before uploads).1 = before ↔ ∀ name blob, (name, .file blob) ∉ uploads := by
  induction uploads using List.reverseRecOn with
  | nil => simp [assignAll]
  | append_singleton done entry ih =>
    have hnext := (kept_assignAll before done).blobs.next
    rw [assignAll_append]
    obtain ⟨name, blob | blobId⟩ := entry
    · constructor
      · intro heq
        have hgrown := congrArg (fun db : Database => db.blobs.next) heq
        simp only [assign, Database.upload, Table.next_insert] at hgrown
        omega
      · intro hnone
        exact absurd (by simp) (hnone name blob)
    · simpa [assign] using ih

theorem committed_eq_self_iff (form : Form) (before : Database) (stage : Stage gems) :
    committed form before stage = before ↔
      stage.id? = none ∧ ∀ name blob, (name, .file blob) ∉ form.assigned stage := by
  cases hid : stage.id? with
  | none =>
    rw [← assignAll_eq_self_iff before]
    cases stage with
    | new | save | rejected => simp [committed]
    | _ => cases hid
  | some id =>
    have hnext := images_next_committed form before hid
    constructor
    · intro heq
      rw [heq] at hnext
      omega
    · rintro ⟨hnone, -⟩
      cases hnone

/-- Where a create stands when it ends says what it leaves: everything it had committed. -/
theorem create_leaves {before world : World} {create : Create gems} (howned : Owned before.db)
    (hrun : Runs Create.step (before, Create.start form) (world, create)) :
    world.db = committed form before.db create.stage ∧ Kept before.db world.db ∧
      (world.db = before.db ↔
        create.stage.id? = none ∧ ∀ name blob, (name, .file blob) ∉ form.assigned create.stage) := by
  obtain ⟨-, hprogress⟩ := progress_run hrun
  rw [hprogress.db]
  exact ⟨rfl, kept_committed howned form create.stage, committed_eq_self_iff form _ _⟩

/-! ## The detector is unreachable -/

def unreachableEnd : World × Create (Gems.stub []) :=
  run Create.step [.goes, .goes, .goes, .raises] (World.empty, Create.start (pageForm (ascii "QUJD")))

theorem create_leaves_unreachable :
    unreachableEnd.1.db = committed (pageForm (ascii "QUJD")) Database.empty unreachableEnd.2.stage ∧
      Kept Database.empty unreachableEnd.1.db ∧
        (unreachableEnd.1.db = Database.empty ↔ unreachableEnd.2.stage.id? = none ∧
          ∀ name blob, (name, .file blob) ∉
            (pageForm (ascii "QUJD")).assigned unreachableEnd.2.stage) :=
  create_leaves owned_empty (runs_run Create.step _ _)

theorem row_left_unreachable :
    ¬ ∀ (before world : World) (form : Form) (create : Create (Gems.stub [])), Owned before.db →
      Runs Create.step (before, Create.start form) (world, create) →
        create.raised = true ∨ create.stage = .rejected → world.db = before.db := by
  intro hall
  have hraised : unreachableEnd.2.raised = true := by decide
  have hrow : unreachableEnd.1.db.images.row 1 ≠ none := by decide
  have hsame := hall _ _ _ _ owned_empty (runs_run Create.step _ _) (Or.inl hraised)
  exact hrow (by rw [unreachableEnd, hsame]; rfl)

end FaceDetection.Webapp

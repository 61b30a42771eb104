import FaceDetection.Cxx
import FaceDetection.Table

/-!
# The database of the web application

The tables of `db/schema.rb`, and what `save`, `attach`, `update!` and `destroy` commit. A blob stands
for its row and its file in the storage service. Every attachment is one of an `Image`. The jobs in
which Rails later purges a blob that an attach over it or a destroy has left are not modelled.
-/

namespace FaceDetection.Webapp

structure Image where
  name : Option Bytes
  width : Option Int
  height : Option Int
  xPosition : Option Int
  yPosition : Option Int
  deriving DecidableEq, Repr

inductive AttachmentName where
  | originalImage
  | faceImage
  deriving DecidableEq, Repr

structure Attachment where
  name : AttachmentName
  recordId : Nat
  blobId : Nat
  deriving DecidableEq, Repr

structure Blob where
  filename : Bytes
  contentType : Bytes
  data : Bytes
  deriving DecidableEq, Repr

@[ext]
structure Database where
  images : Table Image
  attachments : Table Attachment
  blobs : Table Blob

namespace Database

def empty : Database := { images := Table.empty, attachments := Table.empty, blobs := Table.empty }

def upload (db : Database) (blob : Blob) : Database := { db with blobs := db.blobs.insert blob }

/-- A record has one attachment under a name: the new one replaces it. -/
def attachBlob (db : Database) (recordId : Nat) (name : AttachmentName) (blobId : Nat) : Database :=
  let others := db.attachments.deleteIf fun _ a => a.recordId = recordId ∧ a.name = name
  { db with attachments := others.insert { name := name, recordId := recordId, blobId := blobId } }

/-- `record.original_image.attach(..)` and `record.face_image.attach(..)`. -/
def attach (db : Database) (recordId : Nat) (name : AttachmentName) (blob : Blob) : Database :=
  (db.upload blob).attachBlob recordId name db.blobs.next

def attachPending (db : Database) (recordId : Nat) :
    List (AttachmentName × Nat) → Database
  | [] => db
  | (name, blobId) :: pending => (db.attachBlob recordId name blobId).attachPending recordId pending

/-- The first `save` of a record. What was assigned to its attachments goes with it. -/
def saveImage (db : Database) (image : Image) (pending : List (AttachmentName × Nat)) : Database :=
  { db with images := db.images.insert image }.attachPending db.images.next pending

def updateImage (db : Database) (id : Nat) (f : Image → Image) : Database :=
  { db with images := db.images.modify id f }

def destroyImage (db : Database) (id : Nat) : Database :=
  { db with
    images := db.images.deleteIf fun k _ => k = id
    attachments := db.attachments.deleteIf fun _ a => a.recordId = id }

/-! ## Attachments of a record -/

/-- The record has that blob under that name. -/
def Attached (db : Database) (recordId : Nat) (name : AttachmentName) (blobId : Nat) : Prop :=
  ∃ a, db.attachments.row a = some { name := name, recordId := recordId, blobId := blobId }

variable {db : Database} {id recordId blobId b : Nat} {name n : AttachmentName}

@[simp] theorem attached_empty : ¬ Attached empty recordId name blobId := by
  rintro ⟨a, ha⟩
  cases ha

@[simp] theorem images_attachBlob : (db.attachBlob id n b).images = db.images := rfl
@[simp] theorem blobs_attachBlob : (db.attachBlob id n b).blobs = db.blobs := rfl

theorem attached_attachBlob :
    Attached (db.attachBlob id n b) recordId name blobId ↔
      recordId = id ∧ name = n ∧ blobId = b ∨
        Attached db recordId name blobId ∧ ¬ (recordId = id ∧ name = n) := by
  unfold Attached attachBlob
  simp only [Table.row_insert_iff, Table.row_deleteIf_iff, Attachment.mk.injEq]
  constructor
  · rintro ⟨a, ⟨-, rfl, rfl, rfl⟩ | ⟨ha, hother⟩⟩
    · exact Or.inl ⟨rfl, rfl, rfl⟩
    · exact Or.inr ⟨⟨a, ha⟩, by simpa using hother⟩
  · rintro (⟨rfl, rfl, rfl⟩ | ⟨⟨a, ha⟩, hother⟩)
    · exact ⟨_, Or.inl ⟨rfl, rfl, rfl, rfl⟩⟩
    · exact ⟨a, Or.inr ⟨ha, by simpa using hother⟩⟩

@[simp] theorem attached_upload {blob : Blob} :
    Attached (db.upload blob) recordId name blobId ↔ Attached db recordId name blobId :=
  Iff.rfl

theorem attached_destroyImage :
    Attached (db.destroyImage id) recordId name blobId ↔
      Attached db recordId name blobId ∧ recordId ≠ id := by
  unfold Attached destroyImage
  simp only [Table.row_deleteIf_iff, decide_eq_false_iff_not]
  constructor
  · rintro ⟨a, ha, hne⟩
    exact ⟨⟨a, ha⟩, hne⟩
  · rintro ⟨⟨a, ha⟩, hne⟩
    exact ⟨a, ha, hne⟩

theorem attached_attach {blob : Blob} :
    Attached (db.attach id n blob) recordId name blobId ↔
      recordId = id ∧ name = n ∧ blobId = db.blobs.next ∨
        Attached db recordId name blobId ∧ ¬ (recordId = id ∧ name = n) := by
  unfold attach
  rw [attached_attachBlob, attached_upload]

@[simp] theorem images_attachPending (db : Database) (pending : List (AttachmentName × Nat)) :
    (db.attachPending id pending).images = db.images := by
  induction pending generalizing db with
  | nil => rfl
  | cons entry pending ih => exact ih _

@[simp] theorem blobs_attachPending (db : Database) (pending : List (AttachmentName × Nat)) :
    (db.attachPending id pending).blobs = db.blobs := by
  induction pending generalizing db with
  | nil => rfl
  | cons entry pending ih => exact ih _

theorem attached_attachPending_ne (h : recordId ≠ id) (db : Database)
    (pending : List (AttachmentName × Nat)) :
    Attached (db.attachPending id pending) recordId name blobId ↔
      Attached db recordId name blobId := by
  induction pending generalizing db with
  | nil => exact Iff.rfl
  | cons entry pending ih =>
    unfold attachPending
    rw [ih, attached_attachBlob]
    simp [h]

/-- A blob that a record has afterwards was pending or was there before. -/
theorem attached_attachPending (db : Database) (pending : List (AttachmentName × Nat))
    (h : Attached (db.attachPending id pending) id name blobId) :
    (name, blobId) ∈ pending ∨ Attached db id name blobId ∧ ∀ b, (name, b) ∉ pending := by
  induction pending generalizing db with
  | nil => exact Or.inr ⟨h, by simp⟩
  | cons entry pending ih =>
    obtain ⟨n, b⟩ := entry
    rcases ih (db.attachBlob id n b) h with hlater | ⟨hbefore, hnone⟩
    · exact Or.inl (List.mem_cons_of_mem _ hlater)
    · rcases attached_attachBlob.mp hbefore with ⟨-, rfl, rfl⟩ | ⟨hdb, hne⟩
      · exact Or.inl List.mem_cons_self
      · right
        refine ⟨hdb, ?_⟩
        intro b' hb'
        rcases List.mem_cons.mp hb' with heq | htail
        · exact hne ⟨rfl, congrArg Prod.fst heq⟩
        · exact hnone b' htail

@[simp] theorem images_saveImage (db : Database) (image : Image)
    (pending : List (AttachmentName × Nat)) :
    (db.saveImage image pending).images = db.images.insert image :=
  images_attachPending _ _

@[simp] theorem blobs_saveImage (db : Database) (image : Image)
    (pending : List (AttachmentName × Nat)) : (db.saveImage image pending).blobs = db.blobs :=
  blobs_attachPending _ _

theorem attached_saveImage_ne (h : recordId ≠ db.images.next) (image : Image)
    (pending : List (AttachmentName × Nat)) :
    Attached (db.saveImage image pending) recordId name blobId ↔
      Attached db recordId name blobId :=
  attached_attachPending_ne h _ _

/-! ## What a change to one record leaves alone -/

/-- `db'` says the same about record `k` as `db`, or has it destroyed. No blob is gone. -/
structure Keeps (k : Nat) (db db' : Database) : Prop where
  blobs : ∀ b blob, db.blobs.row b = some blob → db'.blobs.row b = some blob
  record : db'.images.row k = db.images.row k ∧
      (∀ name b, Attached db' k name b ↔ Attached db k name b) ∨
    db'.images.row k = none ∧ ∀ name b, ¬ Attached db' k name b

variable {k : Nat}

theorem Keeps.refl (k : Nat) (db : Database) : Keeps k db db :=
  ⟨fun _ _ h => h, Or.inl ⟨rfl, fun _ _ => Iff.rfl⟩⟩

theorem keeps_upload (k : Nat) (db : Database) (blob : Blob) : Keeps k db (db.upload blob) :=
  ⟨fun _ _ h => Table.row_insert_of_some blob h, Or.inl ⟨rfl, fun _ _ => Iff.rfl⟩⟩

theorem keeps_attach (h : k ≠ id) (db : Database) (blob : Blob) : Keeps k db (db.attach id n blob) := by
  refine ⟨fun _ _ hb => Table.row_insert_of_some blob hb, Or.inl ⟨rfl, ?_⟩⟩
  intro name b
  rw [attached_attach]
  simp [h]

theorem keeps_saveImage (h : k < db.images.next) (image : Image)
    (pending : List (AttachmentName × Nat)) : Keeps k db (db.saveImage image pending) := by
  refine ⟨?_, Or.inl ⟨?_, fun _ _ => attached_saveImage_ne h.ne image pending⟩⟩
  · intro b blob hb
    rw [blobs_saveImage]
    exact hb
  · rw [images_saveImage, Table.row_insert_ne _ _ h.ne]

theorem keeps_updateImage (h : k ≠ id) (db : Database) (f : Image → Image) :
    Keeps k db (db.updateImage id f) :=
  ⟨fun _ _ hb => hb, Or.inl ⟨Table.row_modify_ne _ _ h, fun _ _ => Iff.rfl⟩⟩

theorem keeps_destroyImage (k : Nat) (db : Database) (id : Nat) : Keeps k db (db.destroyImage id) := by
  refine ⟨fun _ _ hb => hb, ?_⟩
  by_cases hk : k = id
  · right
    refine ⟨?_, fun name b hattached => (attached_destroyImage.mp hattached).2 hk⟩
    simp [destroyImage, Table.deleteIf, hk]
  · left
    refine ⟨?_, fun name b => by simp [attached_destroyImage, hk]⟩
    cases hrow : db.images.row k <;> simp [destroyImage, Table.deleteIf, hk, hrow]

end Database

end FaceDetection.Webapp

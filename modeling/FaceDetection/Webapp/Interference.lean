import FaceDetection.Webapp.Steps

/-!
# What requests do to each other

A create gets its record id from the table, so no two of them have the same. It changes the files of
that id only, and the rows and attachments of that id only.
-/

open FaceDetection.Interleave FaceDetection.Json

namespace FaceDetection.Webapp

variable {Picture ι : Type} {gems : Gems Picture}

/-! ## Names of temporary files -/

theorem tempFileName_injective : Function.Injective tempFileName := by
  intro k l h
  unfold tempFileName at h
  apply uintToString_injective
  simpa using h

theorem tempFaceFileName_injective : Function.Injective tempFaceFileName := by
  intro k l h
  unfold tempFaceFileName at h
  apply uintToString_injective
  simpa using h

/-- The two schemes differ behind `temp_`, whatever the ids. -/
theorem tempFileName_ne_tempFaceFileName (k l : Nat) : tempFileName k ≠ tempFaceFileName l := by
  intro h
  have hsixth := congrArg (fun name => name[5]?) h
  simp only [tempFileName, tempFaceFileName, ascii, List.append_assoc] at hsixth
  revert hsixth
  simp [ch]

/-- The names under which a record has temporary files. -/
def IsTempFile (id : Nat) (name : Bytes) : Prop := name = tempFileName id ∨ name = tempFaceFileName id

theorem isTempFile_unique {k l : Nat} {name : Bytes} (hk : IsTempFile k name)
    (hl : IsTempFile l name) : k = l := by
  rcases hk with rfl | rfl <;> rcases hl with h | h
  · exact tempFileName_injective h
  · exact absurd h (tempFileName_ne_tempFaceFileName k l)
  · exact absurd h.symm (tempFileName_ne_tempFaceFileName l k)
  · exact tempFaceFileName_injective h

theorem files_writeFile_ne (world : World) {name other : Bytes} (content : Bytes) (h : other ≠ name) :
    (world.writeFile name content).files other = world.files other :=
  Function.update_of_ne h ..

theorem files_deleteFile_ne (world : World) {name other : Bytes} (h : other ≠ name) :
    (world.deleteFile name).files other = world.files other :=
  Function.update_of_ne h ..

@[simp] theorem files_writeFile_self (world : World) (name content : Bytes) :
    (world.writeFile name content).files name = some content :=
  Function.update_self ..

@[simp] theorem db_writePart (world : World) (choice : Choice) (name content : Bytes) :
    (world.writePart choice name content).db = world.db := by
  unfold World.writePart
  split <;> rfl

@[simp] theorem db_interrupt (choice : Choice) (world : World) (stage : Stage gems) :
    (stage.interrupt choice world).db = world.db := by
  unfold Stage.interrupt
  split <;> simp

/-! ## The id of a create -/

/-- The record id, from `save` on. -/
def Stage.id? : Stage gems → Option Nat
  | .faceDetection id _ => some id
  | .respond id _ => some id
  | .created id _ => some id
  | _ => none

def Request.id? : Request gems → Option Nat
  | .create action => action.stage.id?
  | .destroy _ => none

theorem Transition.id? {form : Form} {world world' : World} {stage stage' : Stage gems}
    (h : Transition form world stage world' stage') :
    stage'.id? = stage.id? ∧ world'.db.images.next = world.db.images.next ∨
      stage.id? = none ∧ stage'.id? = some world.db.images.next ∧
        world'.db.images.next = world.db.images.next + 1 := by
  cases h with
  | saved h hfits =>
    right
    refine ⟨rfl, ?_, ?_⟩
    · split_ifs <;> rfl
    · simp
  | _ => exact Or.inl ⟨rfl, rfl⟩

/-! ## Other files -/

theorem Transition.files {form : Form} {world world' : World} {stage stage' : Stage gems}
    (h : Transition form world stage world' stage') {name : Bytes}
    (hname : ∀ id, stage.id? = some id → ¬ IsTempFile id name) :
    world'.files name = world.files name := by
  cases h with
  | @openedTemp id | @wroteTemp id =>
    apply files_writeFile_ne
    intro heq
    exact hname id rfl (Or.inl heq)
  | @wroteFace id =>
    apply files_writeFile_ne
    intro heq
    exact hname id rfl (Or.inr heq)
  | @deletedFace id =>
    apply files_deleteFile_ne
    intro heq
    exact hname id rfl (Or.inr heq)
  | _ => rfl

theorem files_writePart_ne (world : World) (choice : Choice) {name other : Bytes} (content : Bytes)
    (h : other ≠ name) : (world.writePart choice name content).files other = world.files other := by
  unfold World.writePart
  split
  · exact files_writeFile_ne world _ h
  · rfl

theorem files_interrupt (choice : Choice) (world : World) {stage : Stage gems} {name : Bytes}
    (hname : ∀ id, stage.id? = some id → ¬ IsTempFile id name) :
    (stage.interrupt choice world).files name = world.files name := by
  unfold Stage.interrupt
  split
  · apply files_writePart_ne
    intro heq
    exact hname _ rfl (Or.inl heq)
  · apply files_writePart_ne
    intro heq
    exact hname _ rfl (Or.inr heq)
  · rfl

/-! ## Other records -/

/-- Attachments belong to ids that the table has handed out. -/
def Owned (db : Database) : Prop :=
  ∀ recordId name b, db.Attached recordId name b → recordId < db.images.next

theorem Transition.keeps {form : Form} {world world' : World} {stage stage' : Stage gems}
    (h : Transition form world stage world' stage') {k : Nat} (hk : k < world.db.images.next)
    (hid : stage.id? ≠ some k) : Database.Keeps k world.db world'.db := by
  have hne : ∀ id, stage.id? = some id → k ≠ id := by
    rintro id hstage rfl
    exact hid hstage
  cases h with
  | uploaded => exact Database.keeps_upload ..
  | saved => exact Database.keeps_saveImage hk ..
  | attachedOriginal => exact Database.keeps_attach (hne _ rfl) ..
  | attachedFace => exact Database.keeps_attach (hne _ rfl) ..
  | updated => exact Database.keeps_updateImage (hne _ rfl) ..
  | _ => exact Database.Keeps.refl ..

theorem owned_attach {db : Database} (h : Owned db) {id : Nat} (hid : id < db.images.next)
    (name : AttachmentName) (blob : Blob) : Owned (db.attach id name blob) := by
  intro recordId n b hattached
  rcases Database.attached_attach.mp hattached with ⟨rfl, -, -⟩ | ⟨hbefore, -⟩
  · exact hid
  · exact h _ _ _ hbefore

theorem owned_saveImage {db : Database} (h : Owned db) (image : Image)
    (pending : List (AttachmentName × Nat)) : Owned (db.saveImage image pending) := by
  intro recordId n b hattached
  rw [Database.images_saveImage, Table.next_insert]
  by_cases hid : recordId = db.images.next
  · omega
  · have hbefore := h _ _ _ ((Database.attached_saveImage_ne hid image pending).mp hattached)
    omega

theorem Transition.owned {form : Form} {world world' : World} {stage stage' : Stage gems}
    (h : Transition form world stage world' stage') (howned : Owned world.db)
    (hid : ∀ id, stage.id? = some id → id < world.db.images.next) : Owned world'.db := by
  cases h with
  | saved => exact owned_saveImage howned _ _
  | attachedOriginal => exact owned_attach howned (hid _ rfl) _ _
  | attachedFace => exact owned_attach howned (hid _ rfl) _ _
  | _ => exact howned

theorem owned_destroyImage {db : Database} (h : Owned db) (id : Nat) : Owned (db.destroyImage id) := by
  intro recordId n b hattached
  exact h _ _ _ (Database.attached_destroyImage.mp hattached).1

/-! ## Steps of any request -/

variable {choice : Choice} {world world' : World} {request request' : Request gems}

theorem Request.step_id (h : request.step choice world = some (world', request')) :
    request'.id? = request.id? ∧ world'.db.images.next = world.db.images.next ∨
      request.id? = none ∧ request'.id? = some world.db.images.next ∧
        world'.db.images.next = world.db.images.next + 1 := by
  cases Request.step_move h with
  | raised =>
    rw [db_interrupt]
    exact Or.inl ⟨rfl, rfl⟩
  | went _ htransition => exact htransition.id?
  | passed | deleted => exact Or.inl ⟨rfl, rfl⟩

theorem Request.step_files (h : request.step choice world = some (world', request')) {name : Bytes}
    (hname : ∀ id, request.id? = some id → ¬ IsTempFile id name) :
    world'.files name = world.files name := by
  cases Request.step_move h with
  | raised choice' => exact files_interrupt choice' world hname
  | went _ htransition => exact htransition.files hname
  | passed | deleted => rfl

/-- The files of a request with another id. -/
theorem Request.step_files_of_ne {other : Request gems}
    (h : request.step choice world = some (world', request'))
    (hne : ∀ k, other.id? = some k → request.id? ≠ some k) {k : Nat} {name : Bytes}
    (hk : other.id? = some k) (hname : IsTempFile k name) :
    world'.files name = world.files name := by
  apply Request.step_files h
  intro l hl hname'
  rw [isTempFile_unique hname' hname] at hl
  exact hne k hk hl

theorem Request.step_keeps (h : request.step choice world = some (world', request')) {k : Nat}
    (hk : k < world.db.images.next) (hid : request.id? ≠ some k) :
    Database.Keeps k world.db world'.db := by
  cases Request.step_move h with
  | raised =>
    rw [db_interrupt]
    exact Database.Keeps.refl ..
  | went _ htransition => exact htransition.keeps hk hid
  | passed => exact Database.Keeps.refl ..
  | deleted => exact Database.keeps_destroyImage ..

theorem Request.step_owned (h : request.step choice world = some (world', request'))
    (howned : Owned world.db) (hid : ∀ id, request.id? = some id → id < world.db.images.next) :
    Owned world'.db := by
  cases Request.step_move h with
  | raised =>
    rw [db_interrupt]
    exact howned
  | went _ htransition => exact htransition.owned howned hid
  | passed => exact howned
  | deleted => exact owned_destroyImage howned _

/-! ## All requests -/

/-- Requests that have not begun, on a database whose attachments have owners. -/
structure Start (s : System ι World (Request gems)) : Prop where
  owned : Owned s.shared.db
  fresh : ∀ i, (s.process i).Fresh

theorem owned_empty : Owned Database.empty := by
  intro recordId name b hb
  exact absurd hb Database.attached_empty

theorem start_empty {process : ι → Request gems} (h : ∀ i, (process i).Fresh) :
    Start { shared := World.empty, process := process } :=
  ⟨owned_empty, h⟩

/-- No id is handed out twice. -/
structure Distinct (s : System ι World (Request gems)) : Prop where
  owned : Owned s.shared.db
  lt_next : ∀ i k, (s.process i).id? = some k → k < s.shared.db.images.next
  unique : ∀ i j k, (s.process i).id? = some k → (s.process j).id? = some k → i = j

theorem Request.Fresh.id? (h : request.Fresh) : request.id? = none := by
  cases request with
  | create action =>
    obtain ⟨form, rfl⟩ := h
    rfl
  | destroy action => rfl

variable [DecidableEq ι]

/-- A request keeps its id. -/
theorem id_of_step {i : ι} {s t : System ι World (Request gems)} (hstep : Step Request.step i s t)
    {j : ι} {k : Nat} (hj : (s.process j).id? = some k) : (t.process j).id? = some k := by
  obtain ⟨choice, shared, request', hstep, rfl⟩ := hstep
  by_cases hji : j = i
  · subst hji
    simp only [Function.update_self]
    rcases Request.step_id hstep with ⟨hsame, -⟩ | ⟨hnone, -⟩
    · rw [hsame, hj]
    · rw [hnone] at hj
      cases hj
  · simp only [Function.update_of_ne hji]
    exact hj

theorem Distinct.step {i : ι} {s t : System ι World (Request gems)} (h : Distinct s)
    (hstep : Step Request.step i s t) : Distinct t := by
  obtain ⟨choice, shared, request', hstep, rfl⟩ := hstep
  have hown := Request.step_id hstep
  have howned := Request.step_owned hstep h.owned fun id hid => h.lt_next i id hid
  -- The id of a process afterwards: what it was, or the key that `save` took.
  have hid : ∀ j k, (Function.update s.process i request' j).id? = some k →
      ((s.process j).id? = some k ∧ k < shared.db.images.next) ∨
        (j = i ∧ k = s.shared.db.images.next ∧ k < shared.db.images.next) := by
    intro j k hj
    by_cases hji : j = i
    · subst hji
      rw [Function.update_self] at hj
      rcases hown with ⟨hsame, hnext⟩ | ⟨-, hnew, hnext⟩
      · rw [hsame] at hj
        have := h.lt_next j k hj
        exact Or.inl ⟨hj, by omega⟩
      · rw [hnew] at hj
        cases hj
        exact Or.inr ⟨rfl, rfl, by omega⟩
    · rw [Function.update_of_ne hji] at hj
      have := h.lt_next j k hj
      exact Or.inl ⟨hj, by omega⟩
  refine ⟨howned, ?_, ?_⟩
  · intro j k hj
    rcases hid j k hj with ⟨-, hlt⟩ | ⟨-, -, hlt⟩ <;> exact hlt
  · intro j l k hj hl
    rcases hid j k hj with ⟨hj', -⟩ | ⟨rfl, hk, -⟩ <;>
      rcases hid l k hl with ⟨hl', -⟩ | ⟨rfl, hk', -⟩
    · exact h.unique j l k hj' hl'
    · exact absurd (h.lt_next j k hj') (by omega)
    · exact absurd (h.lt_next l k hl') (by omega)
    · rfl

theorem Start.distinct {s t : System ι World (Request gems)} (h : Start s)
    (hreach : Reaches Request.step s t) : Distinct t := by
  have hnone : ∀ i, (s.process i).id? = none := fun i => (h.fresh i).id?
  apply hreach.invariant
  · refine ⟨h.owned, ?_, ?_⟩
    · intro i k hi
      rw [hnone i] at hi
      cases hi
    · intro i j k hi
      rw [hnone i] at hi
      cases hi
  · intro i s t hs hstep
    exact hs.step hstep

end FaceDetection.Webapp

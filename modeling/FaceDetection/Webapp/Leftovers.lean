import FaceDetection.Webapp.TempFiles

/-!
# What stays in `tmp/storage`

`face_detection` deletes the file of the face and keeps the file of the picture. So the directory is
as it was exactly while no create has opened `temp_image_<id>.png`.
-/

open FaceDetection.Interleave

namespace FaceDetection.Webapp

variable {Picture ι : Type} {gems : Gems Picture}

/-- The set of files in `tmp/storage`. -/
def World.fileNames (world : World) : Set Bytes := { name | world.files name ≠ none }

/-! ## How far a create has come -/

/-- `temp_image_<id>.png` has been opened. -/
def Point.opened : Point gems → Bool
  | .attachOriginal => false
  | .request => false
  | .openTemp _ => false
  | _ => true

def Stage.opened : Stage gems → Bool
  | .faceDetection _ point => point.opened
  | .respond _ detection => detection.isSome
  | .created _ detection => detection.isSome
  | _ => false

/-- It has been written to the end. -/
def Stage.wrote : Stage gems → Bool
  | .faceDetection _ (.writeTemp ..) => false
  | stage => stage.opened

/-- `temp_face_image_<id>.png` has been deleted. -/
def Stage.cleaned : Stage gems → Bool
  | .faceDetection _ (.update _) => true
  | .faceDetection .. => false
  | stage => stage.opened

def Request.opened : Request gems → Bool
  | .create action => action.stage.opened
  | .destroy _ => false

/-- The step about to be taken opens `temp_image_<id>.png`: it is the one that does, there is a payload
to decode before, and no call raises. -/
def Request.OpensTemp (choice : Choice) : Request gems → Prop
  | .create action =>
    choice.fails = false ∧ action.raised = false ∧ payload action.form.takenImage ≠ none ∧
      ∃ id detection, action.stage = .faceDetection id (.openTemp detection)
  | .destroy _ => False

/-- The step about to be taken is told of no face: it is the one that asks the detector, which answers,
and the answer lists none. -/
def Request.ToldNoFace (choice : Choice) : Request gems → Prop
  | .create action =>
    choice.fails = false ∧ action.raised = false ∧ blank action.form.base64img = false ∧
      lastFace gems choice.response = some none ∧ ∃ id, action.stage = .faceDetection id .request
  | .destroy _ => False

/-! ## Opening the file -/

variable {form : Form} {world world' : World} {stage stage' : Stage gems}

theorem Transition.opened (h : Transition form world stage world' stage') :
    stage'.opened = true ↔ stage.opened = true ∨ payload form.takenImage ≠ none ∧
      ∃ id detection, stage = .faceDetection id (.openTemp detection) := by
  cases h with
  | saved => split_ifs <;> simp [Stage.opened, Point.opened]
  | openedTemp h => simp [Stage.opened, Point.opened, h]
  | _ => simp [Stage.opened, Point.opened]

theorem Transition.files_of_not_opened (h : Transition form world stage world' stage')
    (hopened : stage'.opened = false) : world'.files = world.files := by
  cases h with
  | openedTemp | wroteTemp | wroteFace | deletedFace => cases hopened
  | _ => rfl

theorem interrupt_of_not_opened (choice : Choice) (world : World) (hopened : stage.opened = false) :
    stage.interrupt choice world = world := by
  unfold Stage.interrupt
  split
  · cases hopened
  · cases hopened
  · rfl

/-- From `openTemp` on with a payload, the file is opened. -/
theorem next_openTemp (choice : Choice) (world : World) (id : Nat) (detection : Detection gems)
    (hpayload : payload form.takenImage ≠ none) :
    form.next gems choice world (.faceDetection id (.openTemp detection)) ≠ none := by
  obtain ⟨base64img, hsome⟩ := Option.ne_none_iff_exists'.mp hpayload
  simp only [Form.next, faceDetection, hsome]
  simp

variable {choice : Choice} {request request' : Request gems}

/-- A step of a create that raises leaves it where it stood. -/
theorem Create.step_cases {create create' : Create gems}
    (h : create.step choice world = some (world', create')) :
    create.raised = false ∧ create'.form = create.form ∧
      (choice.fails = true ∧ create'.stage = create.stage ∨
        choice.fails = false ∧
          create.form.next gems choice world create.stage = some (world', create'.stage) ∨
        choice.fails = false ∧ create.form.next gems choice world create.stage = none ∧
          create'.stage = create.stage) := by
  unfold Create.step at h
  split at h
  · cases h
  rename_i hgoing
  simp only [Bool.or_eq_true, not_or, Bool.not_eq_true] at hgoing
  split at h
  · cases h
    exact ⟨hgoing.1, rfl, Or.inl ⟨‹_›, rfl⟩⟩
  rename_i hfails
  simp only [Bool.not_eq_true] at hfails
  split at h
  · cases h
    exact ⟨hgoing.1, rfl, Or.inr (Or.inl ⟨hfails, ‹_›⟩)⟩
  · cases h
    exact ⟨hgoing.1, rfl, Or.inr (Or.inr ⟨hfails, ‹_›, rfl⟩)⟩

theorem Create.passes {create : Create gems} (h : create.step choice world = none)
    (hraised : create.raised = false) : create.stage.ended = true := by
  unfold Create.step at h
  rw [hraised, Bool.false_or] at h
  split at h
  · assumption
  · split at h
    · cases h
    · split at h <;> cases h

theorem Request.passes_opensTemp (choice : Choice) (world : World) (request : Request gems)
    (h : request.step choice world = none) : ¬ request.OpensTemp choice := by
  cases request with
  | create action =>
    rintro ⟨-, hraised, -, id, detection, hstage⟩
    have hended := Create.passes (Option.map_eq_none_iff.mp h) hraised
    rw [hstage] at hended
    cases hended
  | destroy action => exact id

theorem Create.step_opened {create create' : Create gems}
    (h : create.step choice world = some (world', create')) :
    create'.stage.opened = true ↔
      create.stage.opened = true ∨ (Request.create create).OpensTemp choice := by
  obtain ⟨hraised, -, ⟨hfails, hstage⟩ | ⟨hfails, hnext⟩ | ⟨hfails, hnext, hstage⟩⟩ :=
    Create.step_cases h
  · have hno : ¬ (Request.create create).OpensTemp choice := by
      rintro ⟨hgoes, -⟩
      rw [hfails] at hgoes
      cases hgoes
    simp only [hstage, hno, or_false]
  · rw [(next_transition hnext).opened]
    simp only [Request.OpensTemp, hfails, hraised, true_and]
  · have hno : ¬ (Request.create create).OpensTemp choice := by
      rintro ⟨-, -, hpayload, id, detection, hopen⟩
      rw [hopen] at hnext
      exact next_openTemp choice world id detection hpayload hnext
    simp only [hstage, hno, or_false]

theorem Request.step_opened (choice : Choice) (world : World) (request : Request gems) (world' : World)
    (request' : Request gems) (h : request.step choice world = some (world', request')) :
    request'.opened = true ↔ request.opened = true ∨ request.OpensTemp choice := by
  cases request with
  | create action =>
    obtain ⟨⟨_, action'⟩, hstep, heq⟩ := Option.map_eq_some_iff.mp h
    cases heq
    exact Create.step_opened hstep
  | destroy action =>
    cases Request.step_move h <;> simp [Request.opened, Request.OpensTemp]

/-- Before that step a create writes no file. -/
theorem Request.step_files_of_not_opened (h : request.step choice world = some (world', request'))
    (hopened : request'.opened = false) : world'.files = world.files := by
  cases Request.step_move h with
  | raised choice' => rw [interrupt_of_not_opened choice' world hopened]
  | went _ htransition => exact htransition.files_of_not_opened hopened
  | passed | deleted => rfl

/-! ## Why a file is not opened -/

/-- The detector was asked and found no face. -/
def Stage.faceless (form : Form) (stage : Stage gems) : Prop :=
  blank form.base64img = false ∧ ∃ id, stage = .respond id none ∨ stage = .created id none

def Request.Faceless : Request gems → Prop
  | .create action => action.stage.faceless action.form
  | .destroy _ => False

theorem Request.passes_toldNoFace (choice : Choice) (world : World) (request : Request gems)
    (h : request.step choice world = none) : ¬ request.ToldNoFace choice := by
  cases request with
  | create action =>
    rintro ⟨-, hraised, -, -, id, hstage⟩
    have hended := Create.passes (Option.map_eq_none_iff.mp h) hraised
    rw [hstage] at hended
    cases hended
  | destroy action => exact id

theorem Transition.faceless (h : Transition form world stage world' stage')
    (hasks : ∀ id, stage ≠ .faceDetection id .request) :
    stage'.faceless form ↔ stage.faceless form := by
  cases h with
  | saved => split_ifs with hblank <;> simp [Stage.faceless, hblank]
  | noFaces | detected => exact absurd rfl (hasks _)
  | _ => simp [Stage.faceless]

/-- The answer of the detector decides how a create goes on. -/
theorem next_request (choice : Choice) (world : World) (id : Nat) :
    (∀ world' stage', form.next gems choice world (.faceDetection id .request) =
      some (world', stage') → (stage'.faceless form ↔
        blank form.base64img = false ∧ lastFace gems choice.response = some none)) ∧
      (form.next gems choice world (.faceDetection id .request) = none →
        lastFace gems choice.response ≠ some none) := by
  simp only [Form.next, faceDetection]
  split
  · rename_i hface
    refine ⟨?_, by simp⟩
    rintro world' stage' heq
    cases heq
    simp [Stage.faceless, hface]
  · rename_i hnone
    refine ⟨?_, by simp⟩
    rintro world' stage' heq
    cases heq
    simp [Stage.faceless, hnone]
  · rename_i hraises
    exact ⟨by simp, by simp [hraises]⟩

theorem Create.step_faceless {create create' : Create gems}
    (h : create.step choice world = some (world', create')) :
    create'.stage.faceless create'.form ↔
      create.stage.faceless create.form ∨ (Request.create create).ToldNoFace choice := by
  obtain ⟨hraised, hform, ⟨hfails, hstage⟩ | ⟨hfails, hnext⟩ | ⟨hfails, hnext, hstage⟩⟩ :=
    Create.step_cases h
  · have hno : ¬ (Request.create create).ToldNoFace choice := by
      rintro ⟨hgoes, -⟩
      rw [hfails] at hgoes
      cases hgoes
    simp only [hform, hstage, hno, or_false]
  · rw [hform]
    by_cases hasks : ∃ id, create.stage = .faceDetection id .request
    · obtain ⟨id, hasks⟩ := hasks
      rw [hasks] at hnext
      rw [(next_request choice world id).1 _ _ hnext]
      simp [Request.ToldNoFace, Stage.faceless, hfails, hraised, hasks]
    · rw [not_exists] at hasks
      rw [(next_transition hnext).faceless hasks]
      have hno : ¬ (Request.create create).ToldNoFace choice := by
        rintro ⟨-, -, -, -, id, hstage⟩
        exact hasks id hstage
      simp only [hno, or_false]
  · have hno : ¬ (Request.create create).ToldNoFace choice := by
      rintro ⟨-, -, -, hnone, id, hasks⟩
      rw [hasks] at hnext
      exact (next_request choice world id).2 hnext hnone
    simp only [hform, hstage, hno, or_false]

theorem Request.step_faceless (choice : Choice) (world : World) (request : Request gems)
    (world' : World) (request' : Request gems) (h : request.step choice world = some (world', request')) :
    request'.Faceless ↔ request.Faceless ∨ request.ToldNoFace choice := by
  cases request with
  | create action =>
    obtain ⟨⟨_, action'⟩, hstep, heq⟩ := Option.map_eq_some_iff.mp h
    cases heq
    exact Create.step_faceless hstep
  | destroy action =>
    cases Request.step_move h <;> simp [Request.Faceless, Request.ToldNoFace]

/-- What the form of a create has to be for the create to stand where it does. -/
structure Admits (form : Form) (stage : Stage gems) : Prop where
  rejected : stage = .rejected → blank form.image.name = true
  saved : ∀ id, stage.id? = some id → blank form.image.name = false
  detecting : ∀ id point, stage = .faceDetection id point → blank form.base64img = false
  opened : stage.opened = true → blank form.base64img = false ∧ payload form.takenImage ≠ none

theorem Transition.admits (h : Transition form world stage world' stage')
    (hadmits : Admits form stage) : Admits form stage' := by
  obtain ⟨hrejected, hsaved, hdetecting, hopened⟩ := hadmits
  cases h with
  | invalid hblank => exact ⟨fun _ => hblank, by simp [Stage.id?], by simp, by simp [Stage.opened]⟩
  | saved hname hfits =>
    split_ifs with hblank
    · exact ⟨by simp, fun _ _ => hname, by simp, by simp [Stage.opened]⟩
    · exact ⟨by simp, fun _ _ => hname, fun _ _ _ => by simpa using hblank,
        by simp [Stage.opened, Point.opened]⟩
  | openedTemp hpayload =>
    have hblank := hdetecting _ _ rfl
    exact ⟨by simp, fun _ _ => hsaved _ rfl, fun _ _ _ => hblank,
      fun _ => ⟨hblank, by simp [hpayload]⟩⟩
  | assigned | uploaded | signed =>
    exact ⟨by simp, by simp [Stage.id?], by simp, by simp [Stage.opened]⟩
  | attachedOriginal | detected =>
    exact ⟨by simp, fun _ _ => hsaved _ rfl, fun _ _ _ => hdetecting _ _ rfl,
      by simp [Stage.opened, Point.opened]⟩
  | noFaces => exact ⟨by simp, fun _ _ => hsaved _ rfl, by simp, by simp [Stage.opened]⟩
  | updated => exact ⟨by simp, fun _ _ => hsaved _ rfl, by simp, fun _ => hopened rfl⟩
  | responded => exact ⟨by simp, fun _ _ => hsaved _ rfl, by simp, hopened⟩
  | _ =>
    exact ⟨by simp, fun _ _ => hsaved _ rfl, fun _ _ _ => hdetecting _ _ rfl, fun _ => hopened rfl⟩

def Request.Admits : Request gems → Prop
  | .create action => Webapp.Admits action.form action.stage
  | .destroy _ => True

theorem Request.Admits.step (h : Request.Admits request)
    (hstep : request.step choice world = some (world', request')) : Request.Admits request' := by
  cases Request.step_move hstep with
  | raised choice' => exact h
  | went _ htransition => exact htransition.admits h
  | passed | deleted => trivial

theorem Request.Fresh.not_faceless (h : request.Fresh) : ¬ request.Faceless := by
  cases request with
  | create action =>
    obtain ⟨form, rfl⟩ := h
    rintro ⟨-, id, hstage | hstage⟩ <;> cases hstage
  | destroy action => exact id

theorem Request.Fresh.admits (h : request.Fresh) : Request.Admits request := by
  cases request with
  | create action =>
    obtain ⟨form, rfl⟩ := h
    exact ⟨by simp [Create.start], by simp [Create.start, Stage.id?], by simp [Create.start],
      by simp [Create.start, Stage.opened]⟩
  | destroy action => trivial

/-- Why a create that has ended has not opened `temp_image_<id>.png`: it is invalid, has no picture or
no payload, was told of no face, or has raised before. -/
def Create.Spared (told : Prop) (create : Create gems) : Prop :=
  blank create.form.image.name = true ∨ blank create.form.base64img = true ∨
    payload create.form.takenImage = none ∨ told ∨
      (create.raised = true ∧ create.stage.opened = false)

/-- A request that has opened its file has an id. -/
theorem Request.id_of_opened (h : request.opened = true) : ∃ id, request.id? = some id := by
  cases request with
  | create action =>
    change action.stage.opened = true at h
    change ∃ id, action.stage.id? = some id
    cases hstage : action.stage with
    | faceDetection id _ | respond id _ | created id _ => exact ⟨id, rfl⟩
    | _ =>
      rw [hstage] at h
      cases h
  | destroy action => cases h

theorem Create.not_opened_iff {create : Create gems}
    (hadmits : Admits create.form create.stage)
    (hended : (create.raised || create.stage.ended) = true) :
    create.stage.opened = false ↔ create.Spared (create.stage.faceless create.form) := by
  constructor
  · intro hopened
    unfold Create.Spared
    cases hraised : create.raised with
    | true => exact Or.inr (Or.inr (Or.inr (Or.inr ⟨rfl, hopened⟩)))
    | false =>
      rw [hraised, Bool.false_or] at hended
      cases hstage : create.stage with
      | rejected => exact Or.inl (hadmits.rejected hstage)
      | created id detection =>
        rw [hstage] at hopened
        cases detection with
        | some detection => cases hopened
        | none =>
          cases hblank : blank create.form.base64img with
          | true => exact Or.inr (Or.inl rfl)
          | false => exact Or.inr (Or.inr (Or.inr (Or.inl ⟨hblank, id, Or.inr rfl⟩)))
      | _ =>
        rw [hstage] at hended
        cases hended
  · intro hspared
    rw [← Bool.not_eq_true]
    intro hopened
    rcases hspared with hname | hblank | hpayload | ⟨-, id, hstage | hstage⟩ | ⟨-, hnot⟩
    · have hrequest : (Request.create create).opened = true := hopened
      obtain ⟨id, hid⟩ := Request.id_of_opened hrequest
      rw [hadmits.saved id hid] at hname
      cases hname
    · rw [(hadmits.opened hopened).1] at hblank
      cases hblank
    · exact (hadmits.opened hopened).2 hpayload
    · rw [hstage] at hopened
      cases hopened
    · rw [hstage] at hopened
      cases hopened
    · rw [hnot] at hopened
      cases hopened

/-! ## What the files of a create hold -/

/-- From the opening on `temp_image_<id>.png` is there, once written with the picture of the form, and
`temp_face_image_<id>.png` is gone in the end. -/
structure Leaves (form : Form) (files : Bytes → Option Bytes) (stage : Stage gems) : Prop where
  opened : ∀ id, stage.id? = some id → stage.opened = true → files (tempFileName id) ≠ none
  wrote : ∀ id, stage.id? = some id → stage.wrote = true →
    files (tempFileName id) = (payload form.takenImage).map decode64
  cleaned : ∀ id, stage.id? = some id → stage.cleaned = true → files (tempFaceFileName id) = none

/-- A file of the face is not the file of the picture. -/
theorem files_writeFace (world : World) (id : Nat) (content : Bytes) :
    (world.writeFile (tempFaceFileName id) content).files (tempFileName id) =
      world.files (tempFileName id) :=
  files_writeFile_ne world content (tempFileName_ne_tempFaceFileName id id)

theorem files_deleteFace (world : World) (id : Nat) :
    (world.deleteFile (tempFaceFileName id)).files (tempFileName id) = world.files (tempFileName id) :=
  files_deleteFile_ne world (tempFileName_ne_tempFaceFileName id id)

theorem Transition.leaves (h : Transition form world stage world' stage')
    (hown : OwnFiles gems form world.files stage) (hleaves : Leaves form world.files stage) :
    Leaves form world'.files stage' := by
  refine ⟨?_, ?_, ?_⟩
  · intro id hid hopened
    cases h with
    | saved => split_ifs at hopened <;> cases hopened
    | openedTemp | wroteTemp =>
      cases hid
      rw [files_writeFile_self]
      simp
    | wroteFace =>
      cases hid
      rw [files_writeFace]
      exact hleaves.opened _ rfl rfl
    | deletedFace =>
      cases hid
      rw [files_deleteFace]
      exact hleaves.opened _ rfl rfl
    | _ => exact hleaves.opened id hid hopened
  · intro id hid hwrote
    cases h with
    | saved => split_ifs at hwrote <;> cases hwrote
    | openedTemp => cases hwrote
    | wroteTemp =>
      cases hid
      rw [files_writeFile_self]
      exact hown.symm
    | wroteFace =>
      cases hid
      rw [files_writeFace]
      exact hleaves.wrote _ rfl rfl
    | deletedFace =>
      cases hid
      rw [files_deleteFace]
      exact hleaves.wrote _ rfl rfl
    | _ => exact hleaves.wrote id hid hwrote
  · intro id hid hcleaned
    cases h with
    | saved => split_ifs at hcleaned <;> cases hcleaned
    | openedTemp | wroteTemp | wroteFace => cases hcleaned
    | deletedFace =>
      cases hid
      exact Function.update_self ..
    | _ => exact hleaves.cleaned id hid hcleaned

theorem writePart_ne_none (world : World) (choice : Choice) (name content : Bytes)
    (h : world.files name ≠ none) : (world.writePart choice name content).files name ≠ none := by
  unfold World.writePart
  split
  · rw [files_writeFile_self]
    simp
  · exact h

theorem leaves_interrupt (choice : Choice) (hleaves : Leaves form world.files stage) :
    Leaves form (stage.interrupt choice world).files stage := by
  cases stage with
  | faceDetection id point =>
    cases point with
    | writeTemp detection imgData =>
      refine ⟨?_, ?_, ?_⟩
      · intro k hk hopened
        cases hk
        exact writePart_ne_none world choice _ _ (hleaves.opened _ rfl hopened)
      · intro k hk hwrote
        cases hwrote
      · intro k hk hcleaned
        cases hcleaned
    | writeFace detection faceIm =>
      have hsame : ((Stage.faceDetection id (.writeFace detection faceIm)).interrupt choice world).files
          (tempFileName id) = world.files (tempFileName id) :=
        files_writePart_ne world choice _ (tempFileName_ne_tempFaceFileName id id)
      refine ⟨?_, ?_, ?_⟩
      · intro k hk hopened
        cases hk
        rw [hsame]
        exact hleaves.opened _ rfl hopened
      · intro k hk hwrote
        cases hk
        rw [hsame]
        exact hleaves.wrote _ rfl hwrote
      · intro k hk hcleaned
        cases hcleaned
    | _ => exact hleaves
  | _ => exact hleaves

theorem Leaves.congr {files files' : Bytes → Option Bytes} (h : Leaves form files stage)
    (hfiles : ∀ id name, stage.id? = some id → IsTempFile id name → files' name = files name) :
    Leaves form files' stage := by
  refine ⟨?_, ?_, ?_⟩
  · intro id hid hopened
    rw [hfiles id _ hid (Or.inl rfl)]
    exact h.opened id hid hopened
  · intro id hid hwrote
    rw [hfiles id _ hid (Or.inl rfl)]
    exact h.wrote id hid hwrote
  · intro id hid hcleaned
    rw [hfiles id _ hid (Or.inr rfl)]
    exact h.cleaned id hid hcleaned

/-! ## Every create, under every interleaving -/

def Request.Leaves (world : World) : Request gems → Prop
  | .create action => Webapp.Leaves action.form world.files action.stage
  | .destroy _ => True

theorem Request.Leaves.step (h : Request.Leaves world request) (hown : Request.Own world request)
    (hstep : request.step choice world = some (world', request')) :
    Request.Leaves world' request' := by
  cases Request.step_move hstep with
  | raised choice' => exact leaves_interrupt choice' h
  | went _ htransition => exact htransition.leaves hown.2.1 h
  | passed | deleted => trivial

theorem Request.Leaves.other {other : Request gems} (h : Request.Leaves world other)
    (hstep : request.step choice world = some (world', request'))
    (hne : ∀ k, other.id? = some k → request.id? ≠ some k) : Request.Leaves world' other := by
  cases other with
  | create action =>
    apply Webapp.Leaves.congr h
    intro k name hk hname
    exact Request.step_files_of_ne hstep hne hk hname
  | destroy action => trivial

theorem Request.Fresh.opened (h : request.Fresh) : request.opened = false := by
  cases request with
  | create action =>
    obtain ⟨form, rfl⟩ := h
    rfl
  | destroy action => rfl

theorem Request.Fresh.leaves (h : request.Fresh) (world : World) : Request.Leaves world request := by
  cases request with
  | create action =>
    obtain ⟨form, rfl⟩ := h
    refine ⟨?_, ?_, ?_⟩ <;>
    · intro id hid
      cases hid
  | destroy action => trivial

variable [DecidableEq ι] {s t : System ι World (Request gems)}

theorem Start.leaves (h : Start s) (hreach : Reaches Request.step s t) (i : ι) :
    Request.Leaves t.shared (t.process i) := by
  apply hreach.each (P := Request.Leaves) fun t ht => And.intro (h.distinct ht) (h.own ht)
  · intro i
    exact (h.fresh i).leaves s.shared
  · rintro t i choice shared l ⟨-, hown⟩ hleaves hstep
    exact hleaves.step (hown i) hstep
  · rintro t i j choice shared l ⟨hdistinct, -⟩ hij hleaves hstep
    apply hleaves.other hstep
    intro k hj hi
    exact hij (hdistinct.unique i j k hi hj)

theorem Start.admits (h : Start s) (hreach : Reaches Request.step s t) (i : ι) :
    Request.Admits (t.process i) := by
  apply hreach.each (P := fun _ request => Request.Admits request) fun _ _ => trivial
  · intro i
    exact (h.fresh i).admits
  · rintro t i choice shared l - hadmits hstep
    exact hadmits.step hstep
  · rintro t i j choice shared l - - hadmits -
    exact hadmits

/-- A file that no opened request is about is as it was. -/
theorem files_of_not_opened (hreach : Reaches Request.step s t) (name : Bytes)
    (hname : ∀ i id, (t.process i).id? = some id → (t.process i).opened = true → ¬ IsTempFile id name) :
    t.shared.files name = s.shared.files name := by
  have hall := hreach.invariant (P := fun t => (∀ i id, (t.process i).id? = some id →
    (t.process i).opened = true → ¬ IsTempFile id name) → t.shared.files name = s.shared.files name)
  refine hall (fun _ => rfl) ?_ hname
  intro i t u ih hsystem hname
  obtain ⟨choice, shared, request, hstep, rfl⟩ := id hsystem
  have hopened := Request.step_opened choice t.shared (t.process i) shared request hstep
  have hi := hname i
  simp only [Function.update_self] at hi
  have hid : ∀ id, (t.process i).id? = some id → request.id? = some id := by
    intro id hbefore
    have hafter := id_of_step hsystem hbefore
    simp only [Function.update_self] at hafter
    exact hafter
  have hbefore : t.shared.files name = s.shared.files name := by
    apply ih
    intro j id hj hjopened
    by_cases hji : j = i
    · subst hji
      exact hi id (hid id hj) (hopened.mpr (Or.inl hjopened))
    · have hother := hname j id
      simp only [Function.update_of_ne hji] at hother
      exact hother hj hjopened
  change shared.files name = s.shared.files name
  rw [← hbefore]
  cases hflag : request.opened with
  | false => rw [Request.step_files_of_not_opened hstep hflag]
  | true =>
    apply Request.step_files hstep
    intro id hbeforeId
    exact hi id (hid id hbeforeId) hflag

/-- A create that has answered with a face has left the picture of its user behind, and no face. -/
theorem created_leaves (h : Start s) (hreach : Reaches Request.step s t) {i : ι} {action : Create gems}
    (hi : t.process i = .create action) {id : Nat} {detection : Detection gems}
    (hstage : action.stage = .created id (some detection)) :
    t.shared.files (tempFileName id) = (payload action.form.takenImage).map decode64 ∧
      t.shared.files (tempFaceFileName id) = none := by
  have hleaves := h.leaves hreach i
  rw [hi] at hleaves
  obtain ⟨-, hwrote, hcleaned⟩ := hleaves
  rw [hstage] at hwrote hcleaned
  exact ⟨hwrote id rfl rfl, hcleaned id rfl rfl⟩

/-! ## The directory after a history of requests -/

/-- The directory is as it was exactly while no create has opened its file. -/
theorem fileNames_eq_iff (h : Start s) (hreach : Reaches Request.step s t)
    (hfree : ∀ i id name, (t.process i).id? = some id → IsTempFile id name →
      s.shared.files name = none) :
    t.shared.fileNames = s.shared.fileNames ↔ ∀ i, (t.process i).opened = false := by
  constructor
  · intro hsame i
    rw [← Bool.not_eq_true]
    intro hopened
    obtain ⟨id, hid⟩ := Request.id_of_opened hopened
    have hthere : tempFileName id ∈ t.shared.fileNames := by
      have hleaves := h.leaves hreach i
      generalize t.process i = request at hleaves hopened hid
      cases request with
      | create action => exact hleaves.opened id hid hopened
      | destroy action => cases hid
    rw [hsame] at hthere
    exact hthere (hfree i id _ hid (Or.inl rfl))
  · intro hnever
    have hfiles : t.shared.files = s.shared.files := by
      funext name
      apply files_of_not_opened hreach
      intro i id _ hopened
      rw [hnever i] at hopened
      cases hopened
    unfold World.fileNames
    rw [hfiles]

/-- The directory is as it was exactly when no step of the history has opened the file of a picture.
`fileNames_spared_iff` says which creates never do. -/
theorem fileNames_kept_iff {s : System ι World (Request gems)} (hstart : Start s)
    (schedule : List (ι × Choice))
    (hfree : ∀ i id name, ((runSchedule Request.step schedule s).process i).id? = some id →
      IsTempFile id name → s.shared.files name = none) :
    (runSchedule Request.step schedule s).shared.fileNames = s.shared.fileNames ↔
      ∀ n i choice, schedule[n]? = some (i, choice) →
        ¬ ((runSchedule Request.step (schedule.take n) s).process i).OpensTemp choice := by
  have hmark : ∀ i, ((runSchedule Request.step schedule s).process i).opened = true ↔
      ∃ n choice, schedule[n]? = some (i, choice) ∧
        ((runSchedule Request.step (schedule.take n) s).process i).OpensTemp choice := by
    intro i
    have hrun := mark_runSchedule (P := fun request : Request gems => request.opened = true)
      (Q := fun choice request => request.OpensTemp choice) Request.passes_opensTemp
      Request.step_opened schedule s i
    rw [hrun, (hstart.fresh i).opened]
    simp
  rw [fileNames_eq_iff hstart (reaches_runSchedule Request.step schedule s) hfree]
  constructor
  · intro hclosed n i choice hentry hopens
    have hopened := (hmark i).mpr ⟨n, choice, hentry, hopens⟩
    rw [hclosed i] at hopened
    cases hopened
  · intro hnever i
    rw [← Bool.not_eq_true]
    intro hopened
    obtain ⟨n, choice, hentry, hopens⟩ := (hmark i).mp hopened
    exact hnever n i choice hentry hopens

theorem fileNames_kept_iff_pair :
    pairEnd.shared.fileNames = pairStart.shared.fileNames ↔
      ∀ n i choice, (List.replicate 15 [(true, Choice.goes), (false, .goes)]).flatten[n]? =
        some (i, choice) →
          ¬ ((runSchedule Request.step ((List.replicate 15 [(true, .goes), (false, .goes)]).flatten.take n)
            pairStart).process i).OpensTemp choice :=
  fileNames_kept_iff pairStart_start _ fun _ _ _ _ _ => rfl

/-- The directory after a history in which every create has ended, by what the creates were given. -/
theorem fileNames_spared_iff {s : System ι World (Request gems)} (hstart : Start s)
    (schedule : List (ι × Choice))
    (hfree : ∀ i id name, ((runSchedule Request.step schedule s).process i).id? = some id →
      IsTempFile id name → s.shared.files name = none)
    (hended : ∀ i action, (runSchedule Request.step schedule s).process i = .create action →
      (action.raised || action.stage.ended) = true) :
    (runSchedule Request.step schedule s).shared.fileNames = s.shared.fileNames ↔
      ∀ i action, (runSchedule Request.step schedule s).process i = .create action →
        action.Spared (∃ n choice, schedule[n]? = some (i, choice) ∧
          ((runSchedule Request.step (schedule.take n) s).process i).ToldNoFace choice) := by
  have hreach := reaches_runSchedule Request.step schedule s
  have htold : ∀ i, ((runSchedule Request.step schedule s).process i).Faceless ↔
      ∃ n choice, schedule[n]? = some (i, choice) ∧
        ((runSchedule Request.step (schedule.take n) s).process i).ToldNoFace choice := by
    intro i
    have hrun := mark_runSchedule (P := fun request : Request gems => request.Faceless)
      (Q := fun choice request => request.ToldNoFace choice) Request.passes_toldNoFace
      Request.step_faceless schedule s i
    rw [hrun, iff_false_intro (hstart.fresh i).not_faceless, false_or]
  have hspared : ∀ i action, (runSchedule Request.step schedule s).process i = .create action →
      (action.stage.opened = false ↔
        action.Spared (∃ n choice, schedule[n]? = some (i, choice) ∧
          ((runSchedule Request.step (schedule.take n) s).process i).ToldNoFace choice)) := by
    intro i action hi
    have hadmits := hstart.admits hreach i
    have hfaceless := htold i
    rw [hi] at hadmits hfaceless
    rw [← hfaceless]
    exact Create.not_opened_iff hadmits (hended i action hi)
  rw [fileNames_eq_iff hstart hreach hfree]
  constructor
  · intro hclosed i action hi
    have hopened := hclosed i
    rw [hi] at hopened
    exact (hspared i action hi).mp hopened
  · intro hall i
    cases hi : (runSchedule Request.step schedule s).process i with
    | create action => exact (hspared i action hi).mpr (hall i action hi)
    | destroy action => rfl

/-- A create on an empty installation, with a face in the picture. -/
def leftoverEnd : World × Create (Gems.stub [stubbedFace]) :=
  run Create.step (List.replicate 14 .goes) (World.empty, Create.start (pageForm (ascii "QUJD")))

theorem picture_left :
    ¬ ∀ (before world : World) (form : Form) (create : Create (Gems.stub [stubbedFace])),
      Owned before.db → (∀ name, IsTempFile before.db.images.next name → before.files name = none) →
        Runs Create.step (before, Create.start form) (world, create) →
          (create.raised || create.stage.ended) = true → world.fileNames = before.fileNames := by
  intro hall
  have hended : (leftoverEnd.2.raised || leftoverEnd.2.stage.ended) = true := by decide
  have hthere : leftoverEnd.1.files (tempFileName 1) ≠ none := by decide
  have hsame := hall World.empty _ _ _ owned_empty (fun _ _ => rfl) (runs_run Create.step _ _) hended
  have hmember : tempFileName 1 ∈ leftoverEnd.1.fileNames := hthere
  rw [leftoverEnd, hsame] at hmember
  exact hmember rfl

end FaceDetection.Webapp

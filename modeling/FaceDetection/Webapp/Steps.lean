import FaceDetection.Webapp.ImagesController

/-!
# What a step of a request does

`Transition` has one constructor for each thing `create` can do without raising. Everything about
steps is proved from it: what a step does to the database and to the files of other requests.
-/

open FaceDetection.Interleave

namespace FaceDetection.Webapp

variable {Picture : Type} {gems : Gems Picture}

inductive Transition (form : Form) : World → Stage gems → World → Stage gems → Prop
  | assigned {world pending} : Transition form world (.new [] pending) world (.save pending)
  | uploaded {world name blob rest pending} :
      Transition form world (.new ((name, .file blob) :: rest) pending)
        { world with db := world.db.upload blob } (.new rest (pending ++ [(name, world.db.blobs.next)]))
  | signed {world name blobId blob rest pending} (h : world.db.blobs.row blobId = some blob) :
      Transition form world (.new ((name, .signedId (some blobId)) :: rest) pending) world
        (.new rest (pending ++ [(name, blobId)]))
  | invalid {world pending} (h : blank form.image.name = true) :
      Transition form world (.save pending) world .rejected
  | saved {world pending} (h : blank form.image.name = false) (hfits : form.image.fits = true) :
      Transition form world (.save pending)
        { world with db := world.db.saveImage form.image pending }
        (if blank form.base64img then .respond world.db.images.next none
          else .faceDetection world.db.images.next .attachOriginal)
  | attachedOriginal {world id data} (h : gems.data form.takenImage = some data) :
      Transition form world (.faceDetection id .attachOriginal)
        { world with db := world.db.attach id .originalImage (originalBlob data) }
        (.faceDetection id .request)
  | noFaces {world id response} (h : lastFace gems response = some none) :
      Transition form world (.faceDetection id .request) world (.respond id none)
  | detected {world id} {detection : Detection gems}
      (h : detection.request = requestBody gems.toJson id (payload form.takenImage)) :
      Transition form world (.faceDetection id .request) world (.faceDetection id (.openTemp detection))
  | openedTemp {world id detection base64img} (h : payload form.takenImage = some base64img) :
      Transition form world (.faceDetection id (.openTemp detection))
        (world.writeFile (tempFileName id) [])
        (.faceDetection id (.writeTemp detection (decode64 base64img)))
  | wroteTemp {world id detection imgData} :
      Transition form world (.faceDetection id (.writeTemp detection imgData))
        (world.writeFile (tempFileName id) imgData) (.faceDetection id (.openImage detection))
  | openedImage {world id detection file tempIm} (hfile : world.files (tempFileName id) = some file)
      (h : gems.openImage file = some tempIm) :
      Transition form world (.faceDetection id (.openImage detection)) world
        (.faceDetection id (.crop detection tempIm))
  | cropped {world id detection tempIm faceIm}
      (h : gems.crop tempIm (geometry gems detection.face) = some faceIm) :
      Transition form world (.faceDetection id (.crop detection tempIm)) world
        (.faceDetection id (.writeFace detection faceIm))
  | wroteFace {world id detection faceIm} :
      Transition form world (.faceDetection id (.writeFace detection faceIm))
        (world.writeFile (tempFaceFileName id) (gems.write faceIm))
        (.faceDetection id (.readFace detection))
  | readFace {world id detection file} (h : world.files (tempFaceFileName id) = some file) :
      Transition form world (.faceDetection id (.readFace detection)) world
        (.faceDetection id (.attachFace detection file))
  | attachedFace {world id detection file data} (h : gems.data (dataUrl (encode64 file)) = some data) :
      Transition form world (.faceDetection id (.attachFace detection file))
        { world with db := world.db.attach id .faceImage (faceBlob data) }
        (.faceDetection id (.deleteFace detection))
  | deletedFace {world id detection} :
      Transition form world (.faceDetection id (.deleteFace detection))
        (world.deleteFile (tempFaceFileName id)) (.faceDetection id (.update detection))
  | updated {world id columns} {detection : Detection gems}
      (h : detection.face.columns = some columns) (hfits : columns.fits = true) :
      Transition form world (.faceDetection id (.update detection))
        { world with db := world.db.updateImage id columns.write } (.respond id (some detection))
  | responded {world id detection} :
      Transition form world (.respond id detection) world (.created id detection)

theorem faceDetection_transition {choice : Choice} {form : Form} {world world' : World} {id : Nat}
    {point : Point gems} {stage : Stage gems}
    (h : faceDetection gems choice world id form.takenImage point = some (world', stage)) :
    Transition form world (.faceDetection id point) world' stage := by
  cases point with
  | attachOriginal =>
    obtain ⟨data, hdata, h⟩ := Option.bind_eq_some_iff.mp h
    cases h
    exact .attachedOriginal hdata
  | request =>
    simp only [faceDetection] at h
    split at h
    · cases h
      exact .detected rfl
    · cases h
      exact .noFaces ‹_›
    · cases h
  | openTemp detection =>
    obtain ⟨base64img, hpayload, h⟩ := Option.bind_eq_some_iff.mp h
    cases h
    exact .openedTemp hpayload
  | writeTemp detection imgData =>
    cases h
    exact .wroteTemp
  | openImage detection =>
    obtain ⟨file, hfile, h⟩ := Option.bind_eq_some_iff.mp h
    obtain ⟨tempIm, hopen, h⟩ := Option.bind_eq_some_iff.mp h
    cases h
    exact .openedImage hfile hopen
  | crop detection tempIm =>
    obtain ⟨faceIm, hcrop, h⟩ := Option.bind_eq_some_iff.mp h
    cases h
    exact .cropped hcrop
  | writeFace detection faceIm =>
    cases h
    exact .wroteFace
  | readFace detection =>
    obtain ⟨file, hfile, h⟩ := Option.bind_eq_some_iff.mp h
    cases h
    exact .readFace hfile
  | attachFace detection file =>
    obtain ⟨data, hdata, h⟩ := Option.bind_eq_some_iff.mp h
    cases h
    exact .attachedFace hdata
  | deleteFace detection =>
    cases h
    exact .deletedFace
  | update detection =>
    obtain ⟨columns, hcolumns, h⟩ := Option.bind_eq_some_iff.mp h
    split at h
    · cases h
      exact .updated hcolumns ‹_›
    · cases h

theorem next_transition {choice : Choice} {form : Form} {world world' : World}
    {stage stage' : Stage gems} (h : form.next gems choice world stage = some (world', stage')) :
    Transition form world stage world' stage' := by
  cases stage with
  | new rest pending =>
    rcases rest with _ | ⟨⟨name, blob | blobId⟩, rest⟩
    · cases h
      exact .assigned
    · cases h
      exact .uploaded
    · obtain ⟨blobId, rfl, h⟩ := Option.bind_eq_some_iff.mp h
      obtain ⟨blob, hblob, h⟩ := Option.bind_eq_some_iff.mp h
      cases h
      exact .signed hblob
  | save pending =>
    simp only [Form.next] at h
    split at h
    · cases h
      exact .invalid ‹_›
    split at h
    · cases h
      exact .saved (by simpa using ‹¬ blank form.image.name = true›) ‹_›
    · cases h
  | faceDetection id point => exact faceDetection_transition h
  | respond id detection =>
    cases h
    exact .responded
  | created | rejected => cases h

/-- What a step of a request does. A create raises where it stands or makes a transition, a destroy
only goes on or deletes. -/
inductive Request.Move : World → Request gems → World → Request gems → Prop
  | raised {world} {action : Create gems} (choice : Choice) (hgoing : action.raised = false) :
      Request.Move world (.create action) (action.stage.interrupt choice world)
        (.create { action with raised := true })
  | went {world world' stage} {action : Create gems} (hgoing : action.raised = false)
      (h : Transition action.form world action.stage world' stage) :
      Request.Move world (.create action) world' (.create { action with stage := stage })
  | passed {world} {action action' : Destroy} (h : action'.id = action.id) :
      Request.Move world (.destroy action) world (.destroy action')
  | deleted {world} {action : Destroy} (h : action.stage = .destroy) :
      Request.Move world (.destroy action) { world with db := world.db.destroyImage action.id }
        (.destroy { action with stage := .respond })

theorem interrupt_none (choice : Choice) (world : World) (stage : Stage gems) :
    stage.interrupt { choice with written := none } world = world := by
  unfold Stage.interrupt
  split <;> rfl

theorem Create.step_move {choice : Choice} {world world' : World} {action action' : Create gems}
    (h : action.step choice world = some (world', action')) :
    Request.Move world (.create action) world' (.create action') := by
  unfold Create.step at h
  split at h
  · cases h
  rename_i hgoing
  simp only [Bool.or_eq_true, not_or, Bool.not_eq_true] at hgoing
  split at h
  · cases h
    exact .raised choice hgoing.1
  split at h
  · cases h
    exact .went hgoing.1 (next_transition ‹_›)
  · cases h
    have hraised : Request.Move world (.create action) _ _ :=
      .raised { choice with written := none } hgoing.1
    rwa [interrupt_none] at hraised

theorem Destroy.step_move {choice : Choice} {world world' : World} {action action' : Destroy}
    (h : action.step choice world = some (world', action')) :
    Request.Move world (.destroy action : Request gems) world' (.destroy action') := by
  unfold Destroy.step at h
  split at h
  · cases h
  split at h
  · cases h
  · cases h
    exact .passed rfl
  · split at h <;>
    · cases h
      exact .passed rfl
  · cases h
    exact .deleted ‹_›
  · cases h
    exact .passed rfl

theorem Request.step_move {choice : Choice} {world world' : World} {request request' : Request gems}
    (h : request.step choice world = some (world', request')) :
    Request.Move world request world' request' := by
  cases request with
  | create action =>
    obtain ⟨⟨_, action'⟩, hstep, heq⟩ := Option.map_eq_some_iff.mp h
    cases heq
    exact Create.step_move hstep
  | destroy action =>
    obtain ⟨⟨_, action'⟩, hstep, heq⟩ := Option.map_eq_some_iff.mp h
    cases heq
    exact Destroy.step_move hstep

end FaceDetection.Webapp

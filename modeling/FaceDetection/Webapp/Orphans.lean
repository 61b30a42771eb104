import FaceDetection.Webapp.Interference

/-!
# Attachments without a row

Nothing ties an attachment to its row: `attach` inserts it for a record that may be gone. The only way
there is a `destroy` between the `save` of a create and its `attach`.
-/

open FaceDetection.Interleave

namespace FaceDetection.Webapp

variable {Picture ι : Type} {gems : Gems Picture}

/-- Every attachment has its row. -/
def Sound (db : Database) : Prop :=
  ∀ recordId name b, db.Attached recordId name b → db.images.row recordId ≠ none

/-- The create has saved its row and will still attach under that name. -/
def Stage.ahead : AttachmentName → Stage gems → Bool
  | .originalImage, .faceDetection _ .attachOriginal => true
  | .originalImage, _ => false
  | .faceImage, .faceDetection _ (.deleteFace _) => false
  | .faceImage, .faceDetection _ (.update _) => false
  | .faceImage, .faceDetection _ _ => true
  | .faceImage, _ => false

variable [DecidableEq ι]

/-- Request `j` deletes the row `k`. -/
def Deletes (j : ι) (k : Nat) (s t : System ι World (Request gems)) : Prop :=
  Step Request.step j s t ∧ (∃ action, s.process j = .destroy action ∧ action.id = k) ∧
    s.shared.db.images.row k ≠ none ∧ t.shared.db.images.row k = none

/-- On the way from `s` to `t` the row was deleted while its create was under way, with the attach
under that name still to come. -/
def Lost (s t : System ι World (Request gems)) (k : Nat) (name : AttachmentName) : Prop :=
  ∃ u u' i j action, Reaches Request.step s u ∧ Deletes j k u u' ∧ Reaches Request.step u' t ∧
    u.process i = .create action ∧ action.raised = false ∧ action.stage.id? = some k ∧
      action.stage.ahead name = true

/-! ## What a transition adds -/

variable {form : Form} {world world' : World} {stage stage' : Stage gems}

theorem Transition.row_none (h : Transition form world stage world' stage') {k : Nat}
    (hk : world'.db.images.row k = none) : world.db.images.row k = none := by
  cases h with
  | saved =>
    by_contra hrow
    obtain ⟨image, himage⟩ := Option.ne_none_iff_exists'.mp hrow
    rw [Database.images_saveImage, Table.row_insert_of_some _ himage] at hk
    cases hk
  | @updated id =>
    by_cases hid : k = id
    · subst hid
      simpa [Database.updateImage] using hk
    · rwa [Database.updateImage, Table.row_modify_ne _ _ hid] at hk
  | _ => exact hk

theorem Transition.attached (h : Transition form world stage world' stage') {k : Nat}
    {name : AttachmentName} {b : Nat} (hb : world'.db.Attached k name b) :
    world.db.Attached k name b ∨ (stage.id? = some k ∧ stage.ahead name = true) ∨
      world'.db.images.row k ≠ none := by
  cases h with
  | saved =>
    by_cases hk : k = world.db.images.next
    · subst hk
      right; right
      simp
    · exact Or.inl ((Database.attached_saveImage_ne hk _ _).mp hb)
  | attachedOriginal | attachedFace =>
    rcases Database.attached_attach.mp hb with ⟨rfl, rfl, -⟩ | ⟨hbefore, -⟩
    · exact Or.inr (Or.inl ⟨rfl, rfl⟩)
    · exact Or.inl hbefore
  | _ => exact Or.inl hb

theorem Transition.ahead (h : Transition form world stage world' stage') {k : Nat}
    (hid : stage'.id? = some k) {name : AttachmentName} (hahead : stage'.ahead name = true) :
    (stage.id? = some k ∧ stage.ahead name = true) ∨ world'.db.images.row k ≠ none := by
  cases h with
  | saved =>
    right
    have hk : k = world.db.images.next := by
      split_ifs at hid <;> exact (Option.some.inj hid).symm
    subst hk
    simp
  | _ => cases name <;> first | exact Or.inl ⟨hid, rfl⟩ | cases hahead

/-! ## Every run -/

theorem Lost.step {s t u : System ι World (Request gems)} {k : Nat} {name : AttachmentName} {i : ι}
    (h : Lost s t k name) (hstep : Step Request.step i t u) : Lost s u k name := by
  obtain ⟨v, v', j, l, action, hbefore, hdeletes, hafter, haction⟩ := h
  exact ⟨v, v', j, l, action, hbefore, hdeletes, hafter.tail ⟨i, hstep⟩, haction⟩

/-- The invariant of the run from `s`: for attachments, and for creates that will still attach. -/
structure Accounted (s t : System ι World (Request gems)) : Prop where
  reached : Reaches Request.step s t
  attached : ∀ k name b, t.shared.db.Attached k name b →
    t.shared.db.images.row k ≠ none ∨ Lost s t k name
  ahead : ∀ i action k name, t.process i = .create action → action.raised = false →
    action.stage.id? = some k → action.stage.ahead name = true →
      t.shared.db.images.row k ≠ none ∨ Lost s t k name

/-- A step that leaves the database alone, and after which no create goes on that did not before. -/
theorem Accounted.same {s t u : System ι World (Request gems)} (h : Accounted s t) {i : ι}
    (hstep : Step Request.step i t u) (hdb : u.shared.db = t.shared.db)
    (hgoing : ∀ j action, u.process j = .create action → action.raised = false →
      t.process j = .create action) : Accounted s u := by
  refine ⟨h.reached.tail ⟨i, hstep⟩, ?_, ?_⟩
  · intro k name b hb
    rw [hdb] at hb ⊢
    exact (h.attached k name b hb).imp_right fun hlost => hlost.step hstep
  · intro j action k name hj hraised hid hahead
    rw [hdb]
    have hbefore := hgoing j action hj hraised
    exact (h.ahead j action k name hbefore hraised hid hahead).imp_right fun hlost => hlost.step hstep

theorem Accounted.went {s t : System ι World (Request gems)} (h : Accounted s t) {i : ι}
    {world : World} {action : Create gems} {stage : Stage gems} (hi : t.process i = .create action)
    (hraised : action.raised = false)
    (htransition : Transition action.form t.shared action.stage world stage)
    (hstep : Step Request.step i t
      ⟨world, Function.update t.process i (.create { action with stage := stage })⟩) :
    Accounted s ⟨world, Function.update t.process i (.create { action with stage := stage })⟩ := by
  have hrow : ∀ k name, t.shared.db.images.row k ≠ none ∨ Lost s t k name →
      world.db.images.row k ≠ none ∨
        Lost s ⟨world, Function.update t.process i (.create { action with stage := stage })⟩ k name := by
    intro k name hk
    rcases hk with hk | hlost
    · exact Or.inl fun hnone => hk (htransition.row_none hnone)
    · exact Or.inr (hlost.step hstep)
  refine ⟨h.reached.tail ⟨i, hstep⟩, ?_, ?_⟩
  · intro k name b hb
    rcases htransition.attached hb with hbefore | ⟨hid, hahead⟩ | hpresent
    · exact hrow k name (h.attached k name b hbefore)
    · exact hrow k name (h.ahead i action k name hi hraised hid hahead)
    · exact Or.inl hpresent
  · intro j other k name hj hgoing hid hahead
    simp only at hj
    by_cases hji : j = i
    · subst hji
      rw [Function.update_self] at hj
      cases hj
      rcases htransition.ahead hid hahead with ⟨hid', hahead'⟩ | hpresent
      · exact hrow k name (h.ahead j action k name hi hraised hid' hahead')
      · exact Or.inl hpresent
    · rw [Function.update_of_ne hji] at hj
      exact hrow k name (h.ahead j other k name hj hgoing hid hahead)

/-- A create after the step of a destroy was there before it. -/
theorem process_of_destroy {process : ι → Request gems} {i j : ι} {action : Destroy}
    {other : Create gems} (h : Function.update process i (.destroy action) j = .create other) :
    process j = .create other := by
  by_cases hji : j = i
  · subst hji
    rw [Function.update_self] at h
    cases h
  · rwa [Function.update_of_ne hji] at h

/-- A row that a `destroy` takes was there before, or is lost to its create now. -/
theorem Accounted.deleted {s t : System ι World (Request gems)} (h : Accounted s t) {i : ι}
    {action action' : Destroy} (hi : t.process i = .destroy action)
    (hstep : Step Request.step i t ⟨{ t.shared with db := t.shared.db.destroyImage action.id },
      Function.update t.process i (.destroy action')⟩) :
    Accounted s ⟨{ t.shared with db := t.shared.db.destroyImage action.id },
      Function.update t.process i (.destroy action')⟩ := by
  have hkeep : ∀ k, k ≠ action.id →
      (t.shared.db.destroyImage action.id).images.row k = t.shared.db.images.row k := by
    intro k hk
    cases hrow : t.shared.db.images.row k <;> simp [Database.destroyImage, Table.deleteIf, hk, hrow]
  refine ⟨h.reached.tail ⟨i, hstep⟩, ?_, ?_⟩
  · intro k name b hb
    obtain ⟨hbefore, hk⟩ := Database.attached_destroyImage.mp hb
    simp only [hkeep k hk]
    exact (h.attached k name b hbefore).imp_right fun hlost => hlost.step hstep
  · intro j other k name hj hgoing hid hahead
    have hj' := process_of_destroy hj
    by_cases hk : k = action.id
    · right
      rcases h.ahead j other k name hj' hgoing hid hahead with hpresent | hlost
      · refine ⟨t, _, j, i, other, h.reached, ⟨hstep, ⟨action, hi, hk.symm⟩, hpresent, ?_⟩,
          Relation.ReflTransGen.refl, hj', hgoing, hid, hahead⟩
        simp [Database.destroyImage, Table.deleteIf, hk]
      · exact hlost.step hstep
    · simp only [hkeep k hk]
      exact (h.ahead j other k name hj' hgoing hid hahead).imp_right fun hlost => hlost.step hstep

theorem Accounted.step {s t u : System ι World (Request gems)} (h : Accounted s t) {i : ι}
    (hstep : Step Request.step i t u) : Accounted s u := by
  obtain ⟨choice, world, request, hrequest, rfl⟩ := id hstep
  generalize hi : t.process i = before at hrequest
  cases Request.step_move hrequest with
  | raised choice' =>
    apply h.same hstep (db_interrupt ..)
    intro j other hj hgoing
    simp only at hj
    by_cases hji : j = i
    · subst hji
      rw [Function.update_self] at hj
      cases hj
      cases hgoing
    · rwa [Function.update_of_ne hji] at hj
  | went hraised htransition => exact h.went hi hraised htransition hstep
  | passed =>
    apply h.same hstep rfl
    intro j other hj _
    exact process_of_destroy hj
  | deleted => exact h.deleted hi hstep

theorem Start.accounted {s t : System ι World (Request gems)} (h : Start s)
    (hsound : Sound s.shared.db) (hreach : Reaches Request.step s t) : Accounted s t := by
  apply hreach.invariant (P := Accounted s)
  · refine ⟨Relation.ReflTransGen.refl, ?_, ?_⟩
    · intro k name b hb
      exact Or.inl (hsound k name b hb)
    · intro i action k name hi _ hid
      have hfresh := (h.fresh i).id?
      rw [hi] at hfresh
      exact absurd (hfresh.symm.trans hid) (by simp)
  · intro i t u ht hstep
    exact ht.step hstep

/-- An attachment without a row: its row was deleted while the create that attached it was under
way. -/
theorem orphan_lost {s t : System ι World (Request gems)} (hstart : Start s)
    (hsound : Sound s.shared.db) (hreach : Reaches Request.step s t) (recordId : Nat)
    (name : AttachmentName) (b : Nat) (hattached : t.shared.db.Attached recordId name b) :
    t.shared.db.images.row recordId ≠ none ∨ Lost s t recordId name :=
  (hstart.accounted hsound hreach).attached recordId name b hattached

/-! ## A destroy between save and attach -/

def raceStart : System Bool World (Request (Gems.stub [])) where
  shared := World.empty
  process
    | true => .create (Create.start (pageForm (ascii "QUJD")))
    | false => .destroy (Destroy.start 1)

/-- The create saves, the destroy finds and deletes, the create goes on. -/
def race : List (Bool × Choice) :=
  [(true, .goes), (true, .goes), (false, .goes), (false, .goes), (false, .goes), (true, .goes),
    (true, .goes), (true, .goes)]

def raceEnd : System Bool World (Request (Gems.stub [])) := runSchedule Request.step race raceStart

theorem raceStart_start : Start raceStart := by
  apply start_empty
  rintro (_ | _)
  · exact ⟨1, rfl⟩
  · exact ⟨_, rfl⟩

theorem raceStart_sound : Sound raceStart.shared.db := by
  intro recordId name b hb
  exact absurd hb Database.attached_empty

theorem raceEnd_attached : raceEnd.shared.db.Attached 1 .originalImage 1 := ⟨1, by decide⟩

theorem orphan_lost_race :
    raceEnd.shared.db.images.row 1 ≠ none ∨ Lost raceStart raceEnd 1 .originalImage :=
  orphan_lost raceStart_start raceStart_sound (reaches_runSchedule Request.step race raceStart) 1
    .originalImage 1 raceEnd_attached

theorem not_sound_after_race :
    ¬ ∀ s t : System Bool World (Request (Gems.stub [])), Start s → Sound s.shared.db →
      Reaches Request.step s t → (∀ i, (t.process i).ended = true) → Sound t.shared.db := by
  intro hall
  have hended : ∀ i, (raceEnd.process i).ended = true := by decide
  have hrow : raceEnd.shared.db.images.row 1 = none := by decide
  exact hall raceStart raceEnd raceStart_start raceStart_sound
    (reaches_runSchedule Request.step race raceStart) hended 1 .originalImage 1 raceEnd_attached hrow

end FaceDetection.Webapp

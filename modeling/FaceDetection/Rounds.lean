import Mathlib

/-!
# Loops that end from the inside

`while (true)` with a body that either goes on or leaves with a result. `Leaves body s r`: from the
state `s` the loop comes to an end, and with `r`. A loop may also run for ever, and then there is no
such `r`. `rounds` runs a bounded number of rounds.
-/

namespace FaceDetection

variable {σ ρ τ : Type}

inductive Round (σ ρ : Type) where
  | again (s : σ)
  | leave (r : ρ)

inductive Leaves (body : σ → Round σ ρ) : σ → ρ → Prop
  | leave {s : σ} {r : ρ} (h : body s = .leave r) : Leaves body s r
  | again {s t : σ} {r : ρ} (h : body s = .again t) (next : Leaves body t r) : Leaves body s r

def rounds (body : σ → Round σ ρ) : Nat → σ → Option ρ
  | 0, _ => none
  | n + 1, s =>
    match body s with
    | .again s => rounds body n s
    | .leave r => some r

namespace Leaves

variable {body : σ → Round σ ρ} {s t : σ} {r r' : ρ}

theorem leave_iff (h : body s = .leave r') : Leaves body s r ↔ r = r' := by
  constructor
  · rintro (hleave | ⟨hagain, _⟩)
    · cases h.symm.trans hleave
      rfl
    · cases h.symm.trans hagain
  · rintro rfl
    exact leave h

theorem again_iff (h : body s = .again t) : Leaves body s r ↔ Leaves body t r := by
  constructor
  · rintro (hleave | ⟨hagain, next⟩)
    · cases h.symm.trans hleave
    · cases h.symm.trans hagain
      exact next
  · intro next
    exact again h next

theorem congr (h : body s = body t) : Leaves body s r ↔ Leaves body t r := by
  cases hbody : body t with
  | leave r' => rw [leave_iff (h.trans hbody), leave_iff hbody]
  | again u => rw [again_iff (h.trans hbody), again_iff hbody]

theorem unique (h : Leaves body s r) (h' : Leaves body s r') : r = r' := by
  induction h with
  | leave hleave => exact ((leave_iff hleave).mp h').symm
  | again hagain _ ih => exact ih ((again_iff hagain).mp h')

theorem of_rounds {n : Nat} (h : rounds body n s = some r) : Leaves body s r := by
  induction n generalizing s with
  | zero => cases h
  | succ n ih =>
    unfold rounds at h
    cases hbody : body s with
    | again t =>
      rw [hbody] at h
      exact again hbody (ih h)
    | leave r' =>
      rw [hbody] at h
      cases h
      exact leave hbody

/-- A body that lowers a measure while an invariant holds leaves within that many rounds. -/
theorem rounds_of_measure {I : σ → Prop} (μ : σ → Nat)
    (next : ∀ s t, I s → body s = .again t → I t ∧ μ t < μ s) (n : Nat) (hI : I s) (hn : μ s < n) :
    ∃ r, rounds body n s = some r := by
  induction n generalizing s with
  | zero => omega
  | succ n ih =>
    unfold rounds
    cases hbody : body s with
    | leave r => exact ⟨r, rfl⟩
    | again t =>
      obtain ⟨ht, hlt⟩ := next s t hI hbody
      exact ih ht (by omega)

/-- A property that every round keeps and every exit turns into `Q` holds at the end. -/
theorem result {I : σ → Prop} {Q : ρ → Prop} (h : Leaves body s r) (hI : I s)
    (next : ∀ s t, I s → body s = .again t → I t) (exit : ∀ s r, I s → body s = .leave r → Q r) :
    Q r := by
  induction h with
  | leave hleave => exact exit _ _ hI hleave
  | again hagain _ ih => exact ih (next _ _ hI hagain)

/-- A loop that goes round in one state never ends. -/
theorem not_of_self (h : body s = .again s) : ¬ Leaves body s r := by
  intro hleaves
  apply hleaves.result (I := fun t => t = s) (Q := fun _ => False) rfl
  · rintro t u rfl hagain
    cases h.symm.trans hagain
    rfl
  · rintro t r rfl hleave
    cases h.symm.trans hleave

theorem rounds_of_self (h : body s = .again s) (n : Nat) : rounds body n s = none := by
  cases hrounds : rounds body n s with
  | none => rfl
  | some r => exact absurd (of_rounds hrounds) (not_of_self h)

end Leaves

end FaceDetection

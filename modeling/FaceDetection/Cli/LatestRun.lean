import FaceDetection.Cli.Main

/-!
# What a run leaves in the table

A run sends one `UPDATE` for each face, all with `faceFound = true`. So it never takes back what an
earlier run has found, and its text behind `WHERE ID =` decides which rows it writes.
-/

open FaceDetection.Json
open FaceDetection.Webapp (digits_uintToString)

namespace FaceDetection.Cli

variable {Mat Rest : Type} {server : Server Rest} {cv : Highgui Mat} {run : Run} {world : World Rest}

/-! ## The rows behind a run -/

/-- The row says the size of the picture in the file. -/
def SaysSize (cv : Highgui Mat) (row : FaceRow Rest) (file : Option Bytes) : Prop :=
  ∃ content width height, file = some content ∧ cv.size content = some (width, height) ∧
    row.faceWidth = some width ∧ row.faceHeight = some height

/-- The row of the face id says what the run has found, and all other rows are as they were. -/
structure Reflects (server : Server Rest) (d : Detects cv run world) (after : World Rest) : Prop where
  found : ∀ id row, server.number run.sFaceId = some id → after.table id = some row →
    (row.faceFound = some true ↔ d.faces ≠ [])
  size : d.faces ≠ [] → ∀ id row, server.number run.sFaceId = some id → after.table id = some row →
    SaysSize cv row (after.files run.sFaceFilePath)
  others : ∀ k, server.number run.sFaceId ≠ some k → after.table k = world.table k
  kept : ∀ k, (after.table k).map FaceRow.rest = (world.table k).map FaceRow.rest

theorem getLast_seen {d : Detects cv run world} (h : d.faces ≠ []) :
    ∃ last, d.seen.getLast? = some last := by
  have hseen : d.seen ≠ [] := by
    unfold Detects.seen
    rw [ne_eq, List.take_eq_nil_iff, not_or]
    exact ⟨by decide, h⟩
  exact ⟨_, List.getLast?_eq_some_getLast hseen⟩

section Number

variable (sql : server.Reading run.sFaceId) (d : Detects cv run world) {id : Nat}
  (hid : server.number run.sFaceId = some id)
include sql hid

end Number

/-- Behind `WHERE ID =` any condition can stand. One that picks a row with another `ID`, which says the
size of no face, breaks it. -/
theorem not_reflects_of_picked (sql : server.Reading run.sFaceId) (d : Detects cv run world)
    (hfaces : d.faces ≠ []) {picks : Nat → Bool} (hpicks : sql.search world.table = some picks)
    {k : Nat} {row : FaceRow Rest} (hk : server.number run.sFaceId ≠ some k)
    (hrow : world.table k = some row) (hpicked : picks k = true)
    (hnone : ∀ face ∈ d.seen, FaceRow.write (faceSize face) row ≠ row) :
    ¬ Reflects server d (main server cv run world).1 := by
  intro hreflects
  have hafter := hreflects.others k hk
  rw [main_table sql d, hrow] at hafter
  obtain ⟨last, hlast⟩ := getLast_seen hfaces
  obtain ⟨face, rest, hseen⟩ := List.exists_cons_of_ne_nil
    (List.ne_nil_of_mem (List.mem_of_getLast? hlast))
  rw [hseen, List.map_cons] at hafter
  obtain ⟨size, hsize, hwritten⟩ :=
    Search.updates_picked FaceRow.write_write hpicks hpicked (faceSize face) (rest.map faceSize)
  rw [hwritten, hrow, Option.map_some] at hafter
  rw [← List.map_cons, ← hseen] at hsize
  obtain ⟨face', hface', rfl⟩ := List.mem_map.mp hsize
  exact hnone face' hface' (Option.some.inj hafter)

/-! ## Runs one after another -/

/-- Pictures that are their sizes, with the same faces in each. -/
def Highgui.detecting (faces : List Rect) : Highgui (Nat × Nat) where
  imread _ := (0, 0)
  cvtColor mat := .ok mat
  equalizeHist mat := .ok mat
  detectMultiScale _ := .ok faces
  roi _ face := .ok (face.width.toInt.toNat, face.height.toInt.toNat)
  cols mat := mat.1
  rows mat := mat.2
  jpeg mat := uintToString mat.1 ++ ch 'x' :: uintToString mat.2
  size file :=
    some (digitsValue (file.takeWhile isDigit) 0, digitsValue ((file.dropWhile isDigit).drop 1) 0)
  roi_size _ _ _ h := by
    cases h
    rfl
  size_jpeg mat := by
    have hspan := span_uintToString mat.1 (show isDigit (ch 'x') = false by decide) (uintToString mat.2)
    rw [hspan.1, hspan.2, List.drop_succ_cons, List.drop_zero, digitsValue_uintToString,
      digitsValue_uintToString]

end FaceDetection.Cli

import FaceDetection.Update
import FaceDetection.Webapp.Ruby
import FaceDetection.Webcc.Utility

/-!
# `DB`

`updateFaceInfo` and the statement that it sends. The connection is established. The server is a
parameter: it reads the statement of a run as standard SQL does.
-/

open FaceDetection.Json
open FaceDetection.Webapp (Digits)
open FaceDetection.Webcc (trim)

namespace FaceDetection.Cli

variable {Rest : Type}

/-- A row of `fimage64s`: the columns that the program writes, and the others. `none` is `NULL`. -/
@[ext]
structure FaceRow (Rest : Type) where
  faceFound : Option Bool
  faceWidth : Option Nat
  faceHeight : Option Nat
  rest : Rest

/-- The rows by `ID`. -/
abbrev Fimage64s (Rest : Type) := Nat → Option (FaceRow Rest)

/-- What an update of the program makes of a row, given the width and the height. -/
def FaceRow.write (size : Nat × Nat) (row : FaceRow Rest) : FaceRow Rest :=
  { row with faceFound := some true, faceWidth := some size.1, faceHeight := some size.2 }

theorem FaceRow.write_write (a b : Nat × Nat) (row : FaceRow Rest) :
    FaceRow.write b (FaceRow.write a row) = FaceRow.write b row := rfl

/-- `sSQLUpdate`. -/
def sSQLUpdate (sFaceID sFaceFound sFaceWidth sFaceHeight : Bytes) : Bytes :=
  ascii "UPDATE fimage64s SET faceFound = " ++ sFaceFound ++ ascii " , faceWidth =" ++ sFaceWidth ++
    ascii ", faceHeight=" ++ sFaceHeight ++ ascii " WHERE ID = " ++ sFaceID ++ ascii ";"

/-- The server: what it makes of a table with a statement, where `none` is an error, and the number that
a text stands for, if it does. Digits with blanks around them are a decimal number; what else is one
depends on the server. -/
structure Server (Rest : Type) where
  executeUpdate : Bytes → Fimage64s Rest → Option (Fimage64s Rest)
  number : Bytes → Option Nat
  number_digits : ∀ text id, Digits (trim text) id → number text = some id

/-- How the server reads the statement with this text behind `WHERE ID =`. The `SET` part ends before
the text starts, so the text only says which rows are picked, from all that is in the table. A number
picks the row with that `ID`. -/
structure Server.Reading (server : Server Rest) (sFaceID : Bytes) where
  search : Search Nat (FaceRow Rest)
  update : ∀ (size : Nat × Nat) (table : Fimage64s Rest),
    server.executeUpdate
        (sSQLUpdate sFaceID (ascii "true") (uintToString size.1) (uintToString size.2)) table =
      (search table).map fun picks => Update.apply { picks := picks, set := FaceRow.write size } table
  number : ∀ id, server.number sFaceID = some id → ∀ table, search table = some fun k => decide (k = id)

def updateFaceInfo (server : Server Rest) (table : Fimage64s Rest)
    (sFaceID sFaceFound sFaceWidth sFaceHeight : Bytes) : Except Fault (Fimage64s Rest) :=
  match server.executeUpdate (sSQLUpdate sFaceID sFaceFound sFaceWidth sFaceHeight) table with
  | some table => .ok table
  | none => .error (.runtimeError "sql::SQLException")

/-! ## A server for plain statements -/

/-- The text behind `pattern`. -/
def behind (pattern text : Bytes) : Option Bytes :=
  if pattern.isPrefixOf text then some (text.drop pattern.length) else none

def plainNumber (text : Bytes) : Option Nat :=
  if trim text ≠ [] ∧ (trim text).all isDigit then some (digitsValue (trim text) 0) else none

/-- A number, or a number and what is true of every row. -/
def plainCondition (text : Bytes) : Option (Nat → Bool) :=
  match plainNumber text with
  | some id => some fun k => decide (k = id)
  | none =>
    if text.takeWhile isDigit ≠ [] ∧ text.dropWhile isDigit = ascii " OR 1=1" then some fun _ => true
    else none

def plainStatement (text : Bytes) : Option (Update Nat (FaceRow Rest)) := do
  let text ← behind (ascii "UPDATE fimage64s SET faceFound = true , faceWidth =") text
  let width := digitsValue (text.takeWhile isDigit) 0
  let text ← behind (ascii ", faceHeight=") (text.dropWhile isDigit)
  let height := digitsValue (text.takeWhile isDigit) 0
  let text ← behind (ascii " WHERE ID = ") (text.dropWhile isDigit)
  let picks ← plainCondition text.dropLast
  return { picks := picks, set := FaceRow.write (width, height) }

theorem plainNumber_digits {text : Bytes} {id : Nat} (h : Digits (trim text) id) :
    plainNumber text = some id := by
  obtain ⟨hne, hall, hvalue⟩ := h
  unfold plainNumber
  rw [if_pos ⟨hne, List.all_eq_true.mpr hall⟩, hvalue]

def Server.plain : Server Rest where
  executeUpdate text table := (plainStatement text).map fun update => update.apply table
  number := plainNumber
  number_digits _ _ := plainNumber_digits

theorem span_uintToString (n : Nat) {c : UInt8} (hc : isDigit c = false) (rest : Bytes) :
    (uintToString n ++ c :: rest).takeWhile isDigit = uintToString n ∧
      (uintToString n ++ c :: rest).dropWhile isDigit = c :: rest := by
  have hall := isDigit_uintToString n
  constructor
  · rw [List.takeWhile_append_of_pos hall, List.takeWhile_cons_of_neg (by simp [hc]), List.append_nil]
  · rw [List.dropWhile_append_of_pos hall, List.dropWhile_cons_of_neg (by simp [hc])]

end FaceDetection.Cli

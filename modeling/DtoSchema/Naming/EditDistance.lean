import DtoSchema.Text.Basic

/-!
# Edit distance

The distance of two texts is the least number of bytes to insert, delete and substitute that turns
one into the other.  It is computed row by row: a row holds the distances of the beginnings of one
text to a beginning of the other, and each row is made from the one before.  The rows stand for the
shorter text.
-/

namespace DtoSchema.Naming

/-- The cells behind a cell `left` of a row.  The row is that of a text with the last byte `y`, and
`s` is what the cells are yet to be made for.  The cells of the row before begin above `left`. -/
def nextCells (y : UInt8) : (left : Nat) → (s : Text) → (row : List Nat) → List Nat
  | left, x :: s, diagonal :: above :: row =>
    let cell := min (min (above + 1) (left + 1)) (diagonal + if x = y then 0 else 1)
    cell :: nextCells y cell s (above :: row)
  | _, _, _ => []

/-- The distances of the beginnings of `s` to a text with the last byte `y`, from those to the text
without it. -/
def nextRow (s : Text) (row : List Nat) (y : UInt8) : List Nat :=
  let first := row.headD 0 + 1
  first :: nextCells y first s row

/-- The last cell of the last row. -/
def tableDistance (s t : Text) : Nat :=
  (t.foldl (nextRow s) (List.range (s.length + 1))).getLastD 0

/-- The least number of bytes to insert, delete and substitute that turns `s` into `t`. -/
def editDistance (s t : Text) : Nat :=
  if s = t then 0
  else if s = [] then t.length
  else if t = [] then s.length
  else if t.length < s.length then tableDistance t s
  else tableDistance s t

end DtoSchema.Naming

import SparseVoxel.Decimal.Column
import SparseVoxel.Nested.Basic

/-!
# Arrays in lines of text

`Tensor.text` writes an array with its numbers in columns: each axis in brackets, the items of the
last axis side by side as far as a line reaches, and those of the other axes under one another. An
array without entries shows its shape and the type of the entries that it lacks.
-/

namespace SparseVoxel.Tensor

/-- The most characters of a line. -/
def lineWidth : Nat :=
  75

/-- The given number of blanks. -/
def blanks (n : Nat) : String :=
  String.ofList (List.replicate n ' ')

/-- Words in brackets side by side, broken into lines below the first one at an indent. -/
def wordsText (width indent : Nat) : List String → String
  | [] => "[]"
  | first :: rest =>
    let step := fun (lines : String × Nat) (word : String) =>
      let (text, column) := lines
      if width < column + 2 + word.length then
        (text ++ ",\n" ++ blanks indent ++ word, indent + word.length)
      else (text ++ ", " ++ word, column + 2 + word.length)
    "[" ++ (rest.foldl step (first, indent + first.length)).1 ++ "]"

/-- The words of an array of a shape in brackets, at an indent. -/
def bracketText (width indent : Nat) : List Nat → List String → String
  | [], words => "".intercalate words
  | [_], words => wordsText (width - 1) indent words
  | n :: rest, words =>
    let between := "," ++ String.ofList (List.replicate rest.length '\n') ++ blanks indent
    "[" ++ between.intercalate
      ((chunks (size rest) n words).map (bracketText (width - 1) (indent + 1) rest)) ++ "]"

/-- What stands in front of an array. -/
def opening : String :=
  "array("

/-- What is said of an array without entries. -/
def emptyText (shape : List Nat) : String :=
  let kept := (if shape = [0] then "" else "shape=" ++ shapeText shape ++ ", ") ++ "dtype=float64)"
  let start := opening ++ "[],"
  let space :=
    if lineWidth < start.length + kept.length + 1 then "\n" ++ blanks opening.length else " "
  start ++ space ++ kept

/-- An array as text. -/
def text (t : Tensor Float) : String :=
  if t.entries.isEmpty then emptyText t.shape
  else
    let words := t.entries.map (Decimal.Column.of t.entries).write
    -- a bracket follows the opening, and a parenthesis the last bracket
    opening ++ bracketText (lineWidth - 1) (opening.length + 1) t.shape words ++ ")"

end SparseVoxel.Tensor

import SparseVoxel.Nested.Product

/-!
# Determinants of square arrays

The determinant of a list of rows is found by elimination: each column is cleared with the row
that has the largest entry in it, and the entries used are multiplied.
-/

namespace SparseVoxel.Tensor

variable {K : Type} [Scalar K]

open Scalar

/-- The place of the row with the largest first entry; the earliest one wins a tie. -/
def pivotPlace (rows : List (List K)) : Nat :=
  let sizes := rows.map fun row => Scalar.abs (row.headD 0)
  (sizes.zipIdx.foldl (fun (best, place) (size, i) =>
    if best < size then (size, i) else (best, place)) (sizes.headD 0, 0)).2

/-- Clears the columns of rows one after the other. Gives the entries that were used, and whether
an odd number of exchanges brought them to their places. -/
def eliminate : Nat → Bool → List (List K) → List K × Bool
  | 0, odd, _ => ([], odd)
  | n + 1, odd, rows =>
    let place := pivotPlace rows
    let pivot := rows.getD place []
    let rest := ((rows.set place (rows.headD [])).drop 1).map fun row =>
      let factor := row.headD 0 / pivot.headD 0
      (row.drop 1).zipWith (fun a p => a - factor * p) (pivot.drop 1)
    let (entries, odd) := eliminate n (odd != decide (place ≠ 0)) rest
    (pivot.headD 0 :: entries, odd)

/-- The determinant of `n` rows of `n` entries. -/
def determinant (n : Nat) (rows : List (List K)) : K :=
  let (entries, odd) := eliminate n false rows
  let size := Scalar.product entries
  if odd then -size else size

/-- The determinants of a stack of matrices, which have to be square. -/
def determinants? (t : Tensor K) : Except Fault (List K) :=
  match t.shape.reverse with
  | m :: n :: stack =>
    if m = n then
      .ok ((chunks (n * n) (size stack) t.entries).map fun part => determinant n (chunks n n part))
    else .error .notSquare
  | _ => .error .notSquare

end SparseVoxel.Tensor

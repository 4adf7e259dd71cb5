import SparseVoxel.Matrix.Three

/-!
# Inverses and determinants by elimination

The matrix is put beside the identity, and the unknowns are eliminated one after the other, each
with the equation that has the largest entry in its column. The determinant is the product of
those entries, negated if an odd number of exchanges moved the equations to their places. For the
inverse the unknowns are solved for from the last one to the first.
-/

namespace SparseVoxel.Matrix3

open Scalar

variable {K : Type} [Scalar K]

/-- One row of a linear system with three right-hand sides. -/
structure Equation (K : Type) where
  left : Vec3 K
  right : Vec3 K

namespace Equation

/-- Subtracts a multiple of another equation. -/
def subtract (e : Equation K) (factor : K) (pivot : Equation K) : Equation K :=
  ⟨e.left.zipWith (fun a p => a - factor * p) pivot.left,
    e.right.zipWith (fun a p => a - factor * p) pivot.right⟩

/-- Removes the unknown of a column with the help of a pivot. -/
def eliminate (column : Axis) (pivot e : Equation K) : Equation K :=
  e.subtract (e.left.get column / pivot.left.get column) pivot

/-- Whether an equation has a larger entry in a column than another. -/
def beats (column : Axis) (e other : Equation K) : Bool :=
  decide (Scalar.abs (other.left.get column) < Scalar.abs (e.left.get column))

/-- Solves for one unknown, whose successors are known. -/
def solve (e : Equation K) (column : Axis) (known : List (Axis × Vec3 K)) : Vec3 K :=
  let rest := known.foldl
    (fun r (axis, v) => r.zipWith (fun a b => a - e.left.get axis * b) v) e.right
  rest.map (· / e.left.get column)

end Equation

/-- Three equations in their order, and whether an odd number of exchanges has led to it. -/
structure Ordered (K : Type) where
  first : Equation K
  second : Equation K
  third : Equation K
  odd : Bool

namespace Ordered

/-- Exchanges the first equation for the one with the largest first entry; the earlier one wins
a tie. -/
def pivotFirst (s : Ordered K) : Ordered K :=
  let ⟨a, b, c, odd⟩ := s
  if b.beats .x a then
    if c.beats .x b then ⟨c, b, a, !odd⟩ else ⟨b, a, c, !odd⟩
  else if c.beats .x a then ⟨c, b, a, !odd⟩
  else s

/-- Exchanges the second equation for the third if that has the larger second entry. -/
def pivotSecond (s : Ordered K) : Ordered K :=
  let ⟨a, b, c, odd⟩ := s
  if c.beats .y b then ⟨a, c, b, !odd⟩ else s

/-- Removes the first unknown from the second and the third equation. -/
def eliminateFirst (s : Ordered K) : Ordered K :=
  { s with second := s.first.eliminate .x s.second, third := s.first.eliminate .x s.third }

/-- Removes the second unknown from the third equation. -/
def eliminateSecond (s : Ordered K) : Ordered K :=
  { s with third := s.second.eliminate .y s.third }

end Ordered

/-- The equations of a matrix beside the identity, after all eliminations. -/
def eliminated (m : Matrix3 K) : Ordered K :=
  let i : Matrix3 K := one
  let start : Ordered K :=
    ⟨⟨m.rows.x, i.rows.x⟩, ⟨m.rows.y, i.rows.y⟩, ⟨m.rows.z, i.rows.z⟩, false⟩
  start.pivotFirst.eliminateFirst.pivotSecond.eliminateSecond

/-- The determinant. -/
def det (m : Matrix3 K) : K :=
  let s := m.eliminated
  let size := Scalar.product [s.first.left.x, s.second.left.y, s.third.left.z]
  if s.odd then -size else size

/-- The inverse; it is meaningful when the determinant is not zero. -/
def inverse (m : Matrix3 K) : Matrix3 K :=
  let s := m.eliminated
  let z := s.third.solve .z []
  let y := s.second.solve .y [(.z, z)]
  let x := s.first.solve .x [(.z, z), (.y, y)]
  ⟨⟨x, y, z⟩⟩

end SparseVoxel.Matrix3

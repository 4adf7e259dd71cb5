import SparseVoxel.Matrix.Elimination

/-!
# Matrices of order four

A `Matrix4` is kept in blocks: a linear block, an offset column and a bottom row. On column
vectors it maps `p` to `linear · p + offset` when the bottom row is `(0, 0, 0, 1)`; such a matrix
is affine, and it can be inverted unless the determinant of its linear block is too small.
-/

namespace SparseVoxel

/-- A matrix of order four in blocks. -/
@[ext]
structure Matrix4 (K : Type) where
  linear : Matrix3 K
  offset : Vec3 K
  bottom : Vec3 K
  corner : K
deriving BEq, Repr, Inhabited

namespace Matrix4

open Scalar

/-- The four rows. -/
def toRows {K : Type} (m : Matrix4 K) : List (List K) :=
  [m.linear.rows.x.toList ++ [m.offset.x],
    m.linear.rows.y.toList ++ [m.offset.y],
    m.linear.rows.z.toList ++ [m.offset.z],
    m.bottom.toList ++ [m.corner]]

/-- The four rows as an array. -/
def toTensor {K : Type} (m : Matrix4 K) : Tensor K :=
  ⟨[4, 4], m.toRows.flatten⟩

/-- The matrix of four rows of four. -/
def ofRows? {K : Type} : List (List K) → Option (Matrix4 K)
  | [[a, b, c, p], [d, e, f, q], [g, h, i, r], [s, t, u, v]] =>
    some ⟨⟨⟨a, b, c⟩, ⟨d, e, f⟩, ⟨g, h, i⟩⟩, ⟨p, q, r⟩, ⟨s, t, u⟩, v⟩
  | _ => none

variable {K : Type} [Scalar K]

/-- The affine matrix with a linear block and a shift. -/
def affine (linear : Matrix3 K) (offset : Vec3 K) : Matrix4 K :=
  ⟨linear, offset, .replicate 0, 1⟩

/-- The identity. -/
def one : Matrix4 K :=
  affine .one (.replicate 0)

/-- The matrix that moves every point by a vector. -/
def shift (v : Vec3 K) : Matrix4 K :=
  affine .one v

/-- The matrix that scales each axis. -/
def scaling (s : Vec3 K) : Matrix4 K :=
  affine (.diagonal s) (.replicate 0)

/-- The matrix with a linear block alone. -/
def ofLinear (m : Matrix3 K) : Matrix4 K :=
  affine m (.replicate 0)

/-- The product of two matrices. -/
def mul (a b : Matrix4 K) : Matrix4 K where
  linear := ⟨a.linear.rows.zipWith
    (fun row t => (b.linear.columns.zipWith (fun column s => row.dot column + t * s) b.bottom))
    a.offset⟩
  offset := a.linear.rows.zipWith (fun row t => row.dot b.offset + t * b.corner) a.offset
  bottom := b.linear.columns.zipWith (fun column s => a.bottom.dot column + a.corner * s) b.bottom
  corner := a.bottom.dot b.offset + a.corner * b.corner

/-- The image of a point. -/
def apply (m : Matrix4 K) (p : Vec3 K) : Vec3 K :=
  m.linear.mulVec p + m.offset

/-- Whether the bottom row is exactly `(0, 0, 0, 1)`. -/
def isAffine (m : Matrix4 K) : Bool :=
  m.bottom == .replicate 0 && m.corner == 1

theorem isAffine_iff_beq {m : Matrix4 K} : m.isAffine = true ↔
    (∀ axis, (m.bottom.get axis == ofInt 0) = true) ∧ (m.corner == ofInt 1) = true := by
  have hbeq : m.isAffine = ((m.bottom.x == ofInt 0 && (m.bottom.y == ofInt 0 &&
      m.bottom.z == ofInt 0)) && m.corner == ofInt 1) := rfl
  rw [hbeq, Axis.forall_iff, Bool.and_eq_true, Bool.and_eq_true, Bool.and_eq_true]
  rfl

/-- Whether every entry is finite. -/
def isFinite (m : Matrix4 K) : Bool :=
  (m.toRows.flatten).all Scalar.isFinite

/-- The least determinant of a linear block that counts as invertible. -/
def singularBound : K :=
  Scalar.tenth 12

/-- Whether a determinant is finite and not too small. -/
def isRegular (m : Matrix4 K) : Bool :=
  let d := m.linear.det
  Scalar.isFinite d && !decide (Scalar.abs d < singularBound)

/-- The inverse of an affine matrix, unless its linear block is singular. -/
def invert? (m : Matrix4 K) : Option (Matrix4 K) :=
  if m.isRegular then
    let inv := m.linear.inverse
    some (affine inv (inv.neg.mulVec m.offset))
  else none

end Matrix4

end SparseVoxel

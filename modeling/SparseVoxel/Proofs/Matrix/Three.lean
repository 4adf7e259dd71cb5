import Mathlib.LinearAlgebra.Matrix.Notation
import Mathlib.LinearAlgebra.UnitaryGroup
import SparseVoxel.Proofs.Affine.Image
import SparseVoxel.Matrix.Three

/-!
# Matrices of order three in exact arithmetic

`Matrix3.toMatrix` numbers the rows and the columns. In exact arithmetic it carries the operations
of `Matrix3` over to those of square matrices, and as it is injective, laws of the latter hold of
the former: products associate, and an inverse on one side is one on the other.
-/

namespace SparseVoxel.Matrix3

/-- The same matrix with its rows and columns numbered. -/
def toMatrix {K : Type} (m : Matrix3 K) : Matrix (Fin 3) (Fin 3) K :=
  !![m.rows.x.x, m.rows.x.y, m.rows.x.z; m.rows.y.x, m.rows.y.y, m.rows.y.z;
    m.rows.z.x, m.rows.z.y, m.rows.z.z]

theorem toMatrix_injective {K : Type} : Function.Injective (toMatrix (K := K)) := by
  intro a b h
  have hentry : ∀ i j, a.toMatrix i j = b.toMatrix i j := fun i j => by rw [h]
  exact Matrix3.ext (Vec3.ext (Vec3.ext (hentry 0 0) (hentry 0 1) (hentry 0 2))
    (Vec3.ext (hentry 1 0) (hentry 1 1) (hentry 1 2))
    (Vec3.ext (hentry 2 0) (hentry 2 1) (hentry 2 2)))

theorem toMatrix_transpose {K : Type} (m : Matrix3 K) :
    m.transpose.toMatrix = m.toMatrix.transpose := by
  ext i j
  fin_cases i <;> fin_cases j <;> rfl

variable {K : Type} [Field K] [LinearOrder K] [FloorRing K]

theorem toMatrix_diagonal (v : Vec3 K) :
    (diagonal v).toMatrix = Matrix.diagonal ![v.x, v.y, v.z] := by
  ext i j
  fin_cases i <;> fin_cases j <;> simp [diagonal, toMatrix, Exact.zero_eq]

theorem toMatrix_one : (one : Matrix3 K).toMatrix = 1 := by
  ext i j
  fin_cases i <;> fin_cases j <;>
    simp [one, diagonal, toMatrix, Vec3.replicate, Exact.zero_eq, Exact.one_eq]

theorem toMatrix_mul (a b : Matrix3 K) : (a.mul b).toMatrix = a.toMatrix * b.toMatrix := by
  ext i j
  fin_cases i <;> fin_cases j <;>
    simp [mul, toMatrix, Matrix.mul_apply, Fin.sum_univ_three, Vec3.map, Affine.dot_eq, columns,
      transpose, ofColumns]

theorem mul_assoc (a b c : Matrix3 K) : (a.mul b).mul c = a.mul (b.mul c) := by
  apply toMatrix_injective
  simp only [toMatrix_mul]
  exact Matrix.mul_assoc _ _ _

theorem mul_one (m : Matrix3 K) : m.mul one = m := by
  apply toMatrix_injective
  rw [toMatrix_mul, toMatrix_one, Matrix.mul_one]

theorem one_mul (m : Matrix3 K) : one.mul m = m := by
  apply toMatrix_injective
  rw [toMatrix_mul, toMatrix_one, Matrix.one_mul]

/-- An inverse on one side is an inverse on the other. -/
theorem mul_eq_one_symm {a b : Matrix3 K} (h : a.mul b = one) : b.mul a = one := by
  have h' : a.toMatrix * b.toMatrix = 1 := by rw [← toMatrix_mul, h, toMatrix_one]
  apply toMatrix_injective
  rw [toMatrix_mul, toMatrix_one]
  exact mul_eq_one_comm.mp h'

theorem mulVec_mulVec (a b : Matrix3 K) (v : Vec3 K) :
    a.mulVec (b.mulVec v) = (a.mul b).mulVec v := by
  have hrow : ∀ row : Vec3 K, row.dot (b.mulVec v) = (b.columns.map row.dot).dot v := by
    intro row
    simp only [mulVec, Vec3.map, Affine.dot_eq, columns, transpose, ofColumns]
    ring
  exact Vec3.ext (hrow _) (hrow _) (hrow _)

theorem one_mulVec (v : Vec3 K) : one.mulVec v = v := by
  ext <;> simp [mulVec, one, diagonal, Vec3.replicate, Vec3.map, Affine.dot_eq, Exact.zero_eq,
    Exact.one_eq]

theorem mulVec_add (m : Matrix3 K) (v w : Vec3 K) : m.mulVec (v + w) = m.mulVec v + m.mulVec w := by
  have hrow : ∀ row : Vec3 K, row.dot (v + w) = row.dot v + row.dot w := by
    intro row
    simp only [Affine.dot_eq, Vec3.add_x, Vec3.add_y, Vec3.add_z]
    ring
  exact Vec3.ext (hrow _) (hrow _) (hrow _)

theorem mulVec_neg (m : Matrix3 K) (v : Vec3 K) : m.mulVec (-v) = -m.mulVec v := by
  have hrow : ∀ row : Vec3 K, row.dot (-v) = -row.dot v := by
    intro row
    simp only [Affine.dot_eq]
    show row.x * -v.x + row.y * -v.y + row.z * -v.z = _
    ring
  exact Vec3.ext (hrow _) (hrow _) (hrow _)

theorem neg_mulVec (m : Matrix3 K) (v : Vec3 K) : m.neg.mulVec v = -m.mulVec v := by
  have hrow : ∀ row : Vec3 K, (row.map (- ·)).dot v = -row.dot v := by
    intro row
    simp only [Affine.dot_eq, Vec3.map]
    ring
  exact Vec3.ext (hrow _) (hrow _) (hrow _)

theorem mulVec_replicate_zero (m : Matrix3 K) : m.mulVec (.replicate 0) = .replicate 0 := by
  ext <;> simp [mulVec, Vec3.map, Vec3.replicate, Affine.dot_eq]

/-- A matrix is told by what it does to vectors. -/
theorem ext_mulVec {a b : Matrix3 K} (h : ∀ v, a.mulVec v = b.mulVec v) : a = b := by
  have hx := h ⟨1, 0, 0⟩
  have hy := h ⟨0, 1, 0⟩
  have hz := h ⟨0, 0, 1⟩
  simp only [mulVec, Vec3.map, Affine.dot_eq, Vec3.mk.injEq, mul_zero, add_zero, zero_add,
    MulOneClass.mul_one] at hx hy hz
  exact Matrix3.ext (Vec3.ext (Vec3.ext hx.1 hy.1 hz.1) (Vec3.ext hx.2.1 hy.2.1 hz.2.1)
    (Vec3.ext hx.2.2 hy.2.2 hz.2.2))

theorem near_zero_iff [IsStrictOrderedRing K] {a b : Matrix3 K} :
    a.near (Scalar.ofInt 0) 0 b = true ↔ a = b := by
  rw [near_eq_true_iff]
  constructor
  · exact fun h => ext_entry fun i j => Exact.near_zero_iff.mp (h i j)
  · rintro rfl
    exact fun i j => Exact.near_zero_iff.mpr rfl

end SparseVoxel.Matrix3


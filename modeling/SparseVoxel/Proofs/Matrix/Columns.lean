import SparseVoxel.Proofs.Affine.PivotMap
import SparseVoxel.Proofs.Scalar.Real

/-!
# Columns that are orthogonal

A matrix is orthonormal if its columns are orthogonal and of length one. Columns that are orthogonal
remain so when each is divided by a factor of its own, and the quotient is orthonormal if each
factor is the length of its column, up to the sign (`orthonormal_divideColumns`). Over the real
numbers every column other than zero has a positive length (`columnNorms_pos_iff`).
-/

namespace SparseVoxel

section Squares

variable {K : Type} [Field K] [LinearOrder K] [IsStrictOrderedRing K] [FloorRing K]

theorem Vec3.dot_self_nonneg (v : Vec3 K) : 0 ≤ v.dot v := by
  rw [Affine.dot_eq]
  exact add_nonneg (add_nonneg (mul_self_nonneg _) (mul_self_nonneg _)) (mul_self_nonneg _)

theorem Vec3.dot_self_eq_zero_iff {v : Vec3 K} : v.dot v = 0 ↔ v = .replicate 0 := by
  have hxy := add_nonneg (mul_self_nonneg v.x) (mul_self_nonneg v.y)
  rw [Affine.dot_eq, add_eq_zero_iff_of_nonneg hxy (mul_self_nonneg v.z),
    mul_self_add_mul_self_eq_zero, mul_self_eq_zero, and_assoc, Vec3.ext_iff]
  rfl

end Squares

namespace Matrix3

section Exact

variable {K : Type} [Field K] [LinearOrder K] [FloorRing K] {m : Matrix3 K} {s : Vec3 K}

theorem entry_diagonal (v : Vec3 K) (i j : Axis) :
    (diagonal v).entry i j = if i = j then v.get i else 0 := by
  cases i <;> cases j <;> simp [diagonal, entry, Vec3.get, Exact.zero_eq]

theorem entry_one (i j : Axis) : (one : Matrix3 K).entry i j = if i = j then 1 else 0 := by
  rw [one, entry_diagonal]
  cases i <;> simp [Vec3.get, Vec3.replicate, Exact.one_eq]

theorem entry_divideColumns (m : Matrix3 K) (s : Vec3 K) (i j : Axis) :
    (m.divideColumns s).entry i j = m.entry i j / s.get j := by
  cases i <;> cases j <;> rfl

theorem dot_columns (m : Matrix3 K) (i j : Axis) : (m.columns.get i).dot (m.columns.get j) =
    m.entry .x i * m.entry .x j + m.entry .y i * m.entry .y j + m.entry .z i * m.entry .z j := by
  simp only [Affine.dot_eq, ← get_columns]
  rfl

theorem entry_transpose_mul (m : Matrix3 K) (i j : Axis) :
    (m.transpose.mul m).entry i j = (m.columns.get i).dot (m.columns.get j) := by
  cases i <;> cases j <;> rfl

/-- The columns of an orthonormal matrix are orthogonal and of length one. -/
theorem orthonormal_iff_columns : m.Orthonormal ↔
    ∀ i j, (m.columns.get i).dot (m.columns.get j) = if i = j then 1 else 0 := by
  constructor
  · intro h i j
    rw [← entry_transpose_mul, h, entry_one]
  · intro h
    refine ext_entry fun i j => ?_
    rw [entry_transpose_mul, entry_one]
    exact h i j

theorem Orthonormal.det_eq (h : m.Orthonormal) : m.toMatrix.det = 1 ∨ m.toMatrix.det = -1 := by
  have hdet := congrArg Matrix.det ((Matrix.mem_orthogonalGroup_iff (Fin 3) K).mp
    (orthonormal_iff.mp h))
  rw [Matrix.det_mul, Matrix.det_transpose, Matrix.det_one] at hdet
  exact mul_self_eq_one_iff.mp hdet

/-! ## Factors of columns -/

theorem dot_columns_scaleColumns (m : Matrix3 K) (s : Vec3 K) (i j : Axis) :
    ((m.scaleColumns s).columns.get i).dot ((m.scaleColumns s).columns.get j) =
      (m.columns.get i).dot (m.columns.get j) * (s.get i * s.get j) := by
  simp only [dot_columns, entry_scaleColumns]
  ring

theorem dot_columns_divideColumns (m : Matrix3 K) (s : Vec3 K) (i j : Axis) :
    ((m.divideColumns s).columns.get i).dot ((m.divideColumns s).columns.get j) =
      (m.columns.get i).dot (m.columns.get j) / (s.get i * s.get j) := by
  simp only [dot_columns, entry_divideColumns]
  ring

theorem divideColumns_scaleColumns (hs : ∀ axis, s.get axis ≠ 0) :
    (m.divideColumns s).scaleColumns s = m := by
  refine ext_entry fun i j => ?_
  rw [entry_scaleColumns, entry_divideColumns, div_mul_cancel₀ _ (hs j)]

theorem scaleColumns_one (s : Vec3 K) : one.scaleColumns s = diagonal s := by
  rw [← mul_diagonal, one_mul]

/-- Orthogonal columns, each divided by its length up to the sign, are orthonormal. -/
theorem orthonormal_divideColumns
    (horthogonal : ∀ i j, i ≠ j → (m.columns.get i).dot (m.columns.get j) = 0)
    (hlength : ∀ i, (m.columns.get i).dot (m.columns.get i) = s.get i * s.get i)
    (hs : ∀ i, s.get i ≠ 0) : (m.divideColumns s).Orthonormal := by
  refine orthonormal_iff_columns.mpr fun i j => ?_
  rw [dot_columns_divideColumns]
  split
  · next h => rw [← h, hlength i, div_self (mul_ne_zero (hs i) (hs i))]
  · next h => rw [horthogonal i j h, zero_div]

end Exact

/-! ## Lengths -/

theorem get_columnNorms (m : Matrix3 ℝ) (axis : Axis) :
    m.columnNorms.get axis = √((m.columns.get axis).dot (m.columns.get axis)) := by
  rw [columnNorms, Vec3.get_map, Affine.dot_eq]
  rfl

theorem columnNorms_nonneg (m : Matrix3 ℝ) (axis : Axis) : 0 ≤ m.columnNorms.get axis := by
  rw [get_columnNorms]
  exact Real.sqrt_nonneg _

theorem columnNorms_mul_self (m : Matrix3 ℝ) (axis : Axis) :
    m.columnNorms.get axis * m.columnNorms.get axis =
      (m.columns.get axis).dot (m.columns.get axis) := by
  rw [get_columnNorms, Real.mul_self_sqrt]
  exact Vec3.dot_self_nonneg _

/-- Every column other than zero has a positive length. -/
theorem columnNorms_pos_iff {m : Matrix3 ℝ} {axis : Axis} :
    0 < m.columnNorms.get axis ↔ m.columns.get axis ≠ .replicate 0 := by
  rw [(columnNorms_nonneg m axis).lt_iff_ne', ne_eq, ← mul_self_eq_zero, columnNorms_mul_self,
    Vec3.dot_self_eq_zero_iff]

end Matrix3

end SparseVoxel

import SparseVoxel.Proofs.Matrix.Four
import SparseVoxel.Proofs.Rotation
import SparseVoxel.Affine.PivotMap

/-!
# Pivoted maps in exact arithmetic

The factors of a pivoted map multiply to an affine matrix, whose linear block is the rotation with
scaled columns; a pivot changes the offset alone, and a pivot at the origin changes nothing
(`pivoted_none`, `pivoted_some`). The inverse that is built from the parameters undoes the map if
the rotation is orthonormal and no axis is scaled to nothing (`inverseWith_apply_matrixWith`).
-/

namespace SparseVoxel

section Zero

variable {K : Type} [Field K]

theorem Vec3.add_replicate_zero (v : Vec3 K) : v + .replicate 0 = v :=
  Vec3.ext (add_zero _) (add_zero _) (add_zero _)

theorem Vec3.replicate_zero_add (v : Vec3 K) : .replicate 0 + v = v :=
  Vec3.ext (zero_add _) (zero_add _) (zero_add _)

theorem Vec3.neg_replicate_zero : -Vec3.replicate (0 : K) = .replicate 0 :=
  Vec3.ext neg_zero neg_zero neg_zero

end Zero

variable {K : Type} [Field K] [LinearOrder K] [FloorRing K]

namespace Matrix3

/-- Scaling the axes first scales the columns. -/
theorem mul_diagonal (r : Matrix3 K) (s : Vec3 K) : r.mul (diagonal s) = r.scaleColumns s := by
  ext <;> simp [mul, diagonal, columns, transpose, ofColumns, scaleColumns, Vec3.map, Vec3.zipWith,
    Affine.dot_eq, Exact.zero_eq]

/-- Scaling the axes last scales the rows. -/
theorem diagonal_mul (s : Vec3 K) (r : Matrix3 K) : (diagonal s).mul r = scaleRows s r := by
  ext <;> simp [mul, diagonal, columns, transpose, ofColumns, scaleRows, Vec3.map, Vec3.zipWith,
    Affine.dot_eq, Exact.zero_eq]

theorem det_scaleColumns (r : Matrix3 K) (s : Vec3 K) :
    (r.scaleColumns s).toMatrix.det = r.toMatrix.det * (s.x * s.y * s.z) := by
  rw [← mul_diagonal, toMatrix_mul, toMatrix_diagonal, Matrix.det_mul, Matrix.det_diagonal,
    Fin.prod_univ_three]
  rfl

end Matrix3

/-! ## The product of the factors -/

theorem Affine.pivoted_none (s : Vec3 K) (r : Matrix3 K) (t : Vec3 K) :
    pivoted none (some s) (some r) (some t) = .affine (r.scaleColumns s) t := by
  simp only [pivoted, Matrix4.one, Matrix4.scaling, Matrix4.ofLinear, Matrix4.shift,
    Matrix4.affine_mul_affine, Matrix3.mul_one, Matrix3.one_mul, Matrix3.mul_diagonal,
    Exact.zero_eq, Matrix3.mulVec_replicate_zero, Vec3.add_replicate_zero, Vec3.replicate_zero_add]

theorem Affine.pivoted_some (p s : Vec3 K) (r : Matrix3 K) (t : Vec3 K) :
    pivoted (some p) (some s) (some r) (some t) =
      .affine (r.scaleColumns s) ((r.scaleColumns s).mulVec (-p) + p + t) := by
  simp only [pivoted, Matrix4.one, Matrix4.scaling, Matrix4.ofLinear, Matrix4.shift,
    Matrix4.affine_mul_affine, Matrix3.mul_one, Matrix3.one_mul, Matrix3.one_mulVec,
    Matrix3.mulVec_mulVec, Matrix3.mul_diagonal, Exact.zero_eq, Vec3.add_replicate_zero,
    Vec3.replicate_zero_add]

/-- A pivot at the origin changes nothing. -/
theorem Affine.pivoted_origin (s : Vec3 K) (r : Matrix3 K) (t : Vec3 K) :
    pivoted (some (.replicate 0)) (some s) (some r) (some t) =
      pivoted none (some s) (some r) (some t) := by
  rw [pivoted_some, pivoted_none, Vec3.neg_replicate_zero, Matrix3.mulVec_replicate_zero,
    Vec3.replicate_zero_add, Vec3.replicate_zero_add]

/-! ## The inverse from the parameters -/

namespace PivotMap

theorem collapses_iff {m : PivotMap K} : m.collapses = true ↔ ∃ axis, m.scale.get axis = 0 := by
  simp only [collapses, Vec3.any_eq_true_iff, beq_iff_eq, Exact.zero_eq]

/-- The linear block of the inverse undoes that of the map. -/
theorem scaleRows_mul_scaleColumns {r : Matrix3 K} (hr : r.Orthonormal) {s d : Vec3 K}
    (hd : ∀ axis, d.get axis * s.get axis = 1) :
    (Matrix3.scaleRows d r.transpose).mul (r.scaleColumns s) = .one := by
  have hx : d.x * s.x = 1 := hd .x
  have hy : d.y * s.y = 1 := hd .y
  have hz : d.z * s.z = 1 := hd .z
  have hscale : (Matrix3.diagonal d).mul (.diagonal s) = .one := by
    rw [Matrix3.mul_diagonal]
    ext <;> simp [Matrix3.diagonal, Matrix3.one, Matrix3.scaleColumns, Vec3.map, Vec3.zipWith,
      Vec3.replicate, Exact.zero_eq, Exact.one_eq, hx, hy, hz]
  calc (Matrix3.scaleRows d r.transpose).mul (r.scaleColumns s)
      = ((Matrix3.diagonal d).mul r.transpose).mul (r.mul (.diagonal s)) := by
        rw [Matrix3.diagonal_mul, Matrix3.mul_diagonal]
    _ = (Matrix3.diagonal d).mul ((r.transpose.mul r).mul (.diagonal s)) := by
        rw [Matrix3.mul_assoc, Matrix3.mul_assoc]
    _ = .one := by rw [show r.transpose.mul r = .one from hr, Matrix3.one_mul, hscale]

/-- The inverse that is built from the parameters undoes the map. -/
theorem inverseWith_apply_matrixWith {m : PivotMap K} {r : Matrix3 K} (hr : r.Orthonormal)
    (hs : ∀ axis, m.scale.get axis ≠ 0) (p : Vec3 K) :
    (m.inverseWith r).apply ((m.matrixWith r).apply p) = p := by
  rw [matrixWith, Affine.pivoted_some, inverseWith, Exact.one_eq]
  have hone := scaleRows_mul_scaleColumns hr (s := m.scale) (d := m.scale.map (1 / ·))
    fun axis => by rw [Vec3.get_map, one_div_mul_cancel (hs axis)]
  simp only [Matrix4.apply, Matrix4.affine, Matrix3.mulVec_add, Matrix3.mulVec_mulVec, hone,
    Matrix3.one_mulVec]
  have hcancel : ∀ c u w : Vec3 K, p + (-c + u + w) + (c - (w + u)) = p := by
    intro c u w
    ext
    · simp only [Vec3.add_x, Vec3.sub_x, Vec3.neg_x]
      ring
    · simp only [Vec3.add_y, Vec3.sub_y, Vec3.neg_y]
      ring
    · simp only [Vec3.add_z, Vec3.sub_z, Vec3.neg_z]
      ring
  exact hcancel _ _ _

end PivotMap

end SparseVoxel

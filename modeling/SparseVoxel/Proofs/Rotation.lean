import SparseVoxel.Proofs.Matrix.Elimination
import SparseVoxel.Proofs.Outcome
import SparseVoxel.Rotation

/-!
# Rotations are orthonormal

In exact arithmetic a matrix is orthonormal if its transpose undoes it. Products of orthonormal
matrices are orthonormal, so wherever the squares of sine and cosine add up to one, every rotation
that is composed of Euler angles is orthonormal, in each order (`orthonormal_toMatrix`). Over every
type of scalars finite angles compose to a rotation, which is not refused (`toMatrix?_eq_ok`).
-/

namespace SparseVoxel

section Finite

variable {K : Type} [Scalar K] [Trigonometry K]

theorem Euler.toMatrix?_eq_ok (order : RotationOrder) {angles : Vec3 K}
    (h : ∀ axis, Scalar.isFinite (angles.get axis) = true) :
    Euler.toMatrix? order angles = .ok (Euler.toMatrix order angles) := by
  have hrequire : angles.mapM requireAngle = .ok (angles.map fun _ => ()) := by
    refine Vec3.mapM_eq_ok fun axis => ?_
    rw [requireAngle, h axis]
    rfl
  exact bind_eq_ok.mpr ⟨_, hrequire, rfl⟩

end Finite

variable {K : Type} [Field K] [LinearOrder K] [FloorRing K]

namespace Matrix3

/-- The transpose of a matrix undoes it. -/
def Orthonormal (m : Matrix3 K) : Prop :=
  m.transpose.mul m = one

theorem orthonormal_iff {m : Matrix3 K} :
    m.Orthonormal ↔ m.toMatrix ∈ Matrix.orthogonalGroup (Fin 3) K := by
  rw [Matrix.mem_orthogonalGroup_iff', Orthonormal, ← toMatrix_injective.eq_iff, toMatrix_mul,
    toMatrix_transpose, toMatrix_one]

theorem orthonormal_one : (one : Matrix3 K).Orthonormal := by
  rw [orthonormal_iff, toMatrix_one]
  exact one_mem _

theorem Orthonormal.mul {a b : Matrix3 K} (ha : a.Orthonormal) (hb : b.Orthonormal) :
    (a.mul b).Orthonormal := by
  rw [orthonormal_iff] at ha hb ⊢
  rw [toMatrix_mul]
  exact mul_mem ha hb

end Matrix3

section Angles

variable [Trigonometry K]

/-- The squares of sine and cosine add up to one. -/
def Pythagorean (K : Type) [Field K] [Trigonometry K] : Prop :=
  ∀ a : K, Trigonometry.cos a * Trigonometry.cos a + Trigonometry.sin a * Trigonometry.sin a = 1

theorem Axis.orthonormal_rotation (h : Pythagorean K) (axis : Axis) (angle : K) :
    (axis.rotation angle).Orthonormal := by
  have hangle := h angle
  have hangle' : Trigonometry.sin angle * Trigonometry.sin angle +
      Trigonometry.cos angle * Trigonometry.cos angle = 1 := by
    rw [add_comm]
    exact hangle
  cases axis <;> ext <;>
    simp [Matrix3.mul, Matrix3.transpose, Matrix3.columns, Matrix3.ofColumns, rotation, Vec3.map,
      Affine.dot_eq, Matrix3.one, Matrix3.diagonal, Vec3.replicate, Exact.zero_eq, Exact.one_eq,
      hangle, hangle', mul_comm]

/-- Rotations composed of Euler angles are orthonormal. -/
theorem Euler.orthonormal_toMatrix (h : Pythagorean K) (order : RotationOrder) (angles : Vec3 K) :
    (Euler.toMatrix order angles).Orthonormal := by
  refine List.foldlRecOn (motive := Matrix3.Orthonormal) _ _ Matrix3.orthonormal_one ?_
  intro r hr axis _
  exact hr.mul (Axis.orthonormal_rotation h axis _)

end Angles

end SparseVoxel

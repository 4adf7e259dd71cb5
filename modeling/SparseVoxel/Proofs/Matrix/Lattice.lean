import Mathlib.Data.Rat.Floor
import SparseVoxel.Proofs.Matrix.Four

/-!
# Maps of the voxel lattice onto itself

An integer matrix with determinant one or minus one, followed by a shift by a voxel, maps the
lattice onto itself without collisions (`latticeImage_bijective`). As a matrix of scalars it has an
inverse, which takes every voxel to the voxel it came from (`invert?_ofLattice`).
-/

namespace SparseVoxel

namespace Matrix4

/-- The voxel that an integer matrix and a shift take a voxel to. -/
def latticeImage (n : Matrix3 Int) (t x : Coord) : Coord :=
  n.rows.zipWith (fun row s => row.x * x.x + row.y * x.y + row.z * x.z + s) t

theorem latticeImage_surjective {n : Matrix3 Int} (hdet : IsUnit n.toMatrix.det) (t : Coord) :
    Function.Surjective (latticeImage n t) := by
  intro y
  let w : Fin 3 → Int := n.toMatrix⁻¹.mulVec ![y.x - t.x, y.y - t.y, y.z - t.z]
  have hw : n.toMatrix.mulVec w = ![y.x - t.x, y.y - t.y, y.z - t.z] := by
    rw [Matrix.mulVec_mulVec, Matrix.mul_nonsing_inv _ hdet, Matrix.one_mulVec]
  have hentry : ∀ i : Fin 3, n.toMatrix i 0 * w 0 + n.toMatrix i 1 * w 1 + n.toMatrix i 2 * w 2 =
      ![y.x - t.x, y.y - t.y, y.z - t.z] i := by
    intro i
    rw [← hw, Matrix.mulVec, dotProduct, Fin.sum_univ_three]
  have haxis : ∀ a s b : Int, a = b - s → a + s = b := by omega
  refine ⟨⟨w 0, w 1, w 2⟩, Vec3.ext ?_ ?_ ?_⟩
  · exact haxis _ _ _ (hentry 0)
  · exact haxis _ _ _ (hentry 1)
  · exact haxis _ _ _ (hentry 2)

variable {K : Type} [Field K] [LinearOrder K] [FloorRing K]

/-- The affine matrix of an integer matrix and a shift by a voxel. -/
def ofLattice (n : Matrix3 Int) (t : Coord) : Matrix4 K :=
  affine (n.map Scalar.ofInt) t.toScalars

theorem apply_ofLattice (n : Matrix3 Int) (t x : Coord) :
    (ofLattice n t : Matrix4 K).apply x.toScalars = (latticeImage n t x).toScalars := by
  have hrow : ∀ (row : Vec3 Int) (s : Int),
      (row.map Scalar.ofInt).dot (x.toScalars : Vec3 K) + Scalar.ofInt s =
        Scalar.ofInt (row.x * x.x + row.y * x.y + row.z * x.z + s) := by
    intro row s
    rw [Affine.dot_eq]
    simp only [Exact.ofInt_eq, Vec3.map, Coord.toScalars]
    push_cast
    ring
  exact Vec3.ext (hrow _ _) (hrow _ _) (hrow _ _)

theorem det_linear_ofLattice [IsStrictOrderedRing K] (n : Matrix3 Int) (t : Coord) :
    (ofLattice n t : Matrix4 K).linear.det = (n.toMatrix.det : K) := by
  rw [Matrix3.det_eq, Matrix.det_fin_three, Matrix.det_fin_three]
  simp [ofLattice, affine, Matrix3.toMatrix, Matrix3.map, Vec3.map, Exact.ofInt_eq]

end Matrix4

theorem Coord.toScalars_injective {K : Type} [Field K] [LinearOrder K] [IsStrictOrderedRing K]
    [FloorRing K] : Function.Injective (Coord.toScalars (K := K)) := by
  intro a b h
  have haxis : ∀ axis, a.get axis = b.get axis := by
    intro axis
    have hget : (a.toScalars : Vec3 K).get axis = (b.toScalars : Vec3 K).get axis := by rw [h]
    rw [Affine.get_toScalars, Affine.get_toScalars] at hget
    exact Int.cast_injective hget
  exact Vec3.ext (haxis .x) (haxis .y) (haxis .z)

namespace Matrix4

variable {K : Type} [Field K] [LinearOrder K] [IsStrictOrderedRing K] [FloorRing K]

/-- The inverse takes every image of a voxel back to the voxel. -/
theorem invert?_ofLattice {n : Matrix3 Int} (hdet : IsUnit n.toMatrix.det) (t : Coord) :
    ∃ inv : Matrix4 K, (ofLattice n t).invert? = some inv ∧
      ∀ x, inv.apply (latticeImage n t x).toScalars = x.toScalars := by
  have hone : |((n.toMatrix.det : Int) : K)| = 1 := by
    rw [← Int.cast_abs, Int.isUnit_iff_abs_eq.mp hdet, Int.cast_one]
  have hbound : (singularBound : K) ≤ 1 := by
    rw [singularBound, Exact.tenth_eq]
    norm_num
  have hregular : (ofLattice n t : Matrix4 K).isRegular = true := by
    rw [isRegular_iff, det_linear_ofLattice, hone]
    exact hbound
  refine ⟨_, if_pos hregular, fun x => ?_⟩
  rw [← apply_ofLattice]
  exact apply_of_invert?_apply (if_pos hregular) _

theorem latticeImage_bijective {n : Matrix3 Int} (hdet : IsUnit n.toMatrix.det) (t : Coord) :
    Function.Bijective (latticeImage n t) := by
  refine ⟨fun x x' h => ?_, latticeImage_surjective hdet t⟩
  obtain ⟨inv, -, hback⟩ := invert?_ofLattice (K := ℚ) hdet t
  apply Coord.toScalars_injective (K := ℚ)
  rw [← hback x, h, hback x']

end Matrix4

end SparseVoxel

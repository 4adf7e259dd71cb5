import Mathlib.Tactic.LinearCombination
import SparseVoxel.Proofs.Matrix.Columns

/-!
# Angles of a rotation

A proper rotation is the composition of rotations by the angles that `Euler.ofMatrix` recovers from
it, over the real numbers and in the order `zyx` (`Euler.toMatrix_ofMatrix`). The angles fix the
first column and the last row; the other entries follow because the columns of a proper rotation
are orthogonal and every entry is its own cofactor. Where the cosine of the middle angle is not
zero but so small that the outer axes count as coincident, nothing is said. Whatever the order and
the angles, what is composed is a proper rotation (`Euler.proper_toMatrix`).
-/

namespace SparseVoxel

section Exact

variable {K : Type} [Field K] [LinearOrder K] [FloorRing K]

namespace Matrix3

/-- A rotation: an orthonormal matrix that keeps orientation. -/
structure Proper (m : Matrix3 K) : Prop where
  orthonormal : m.Orthonormal
  det_eq_one : m.det = 1

theorem proper_one [IsStrictOrderedRing K] : (one : Matrix3 K).Proper := by
  refine ⟨orthonormal_one, ?_⟩
  rw [det_eq, toMatrix_one, Matrix.det_one]

/-- Every entry of a rotation is its own cofactor. -/
theorem Proper.adjugate_eq [IsStrictOrderedRing K] {m : Matrix3 K} (h : m.Proper) :
    m.toMatrix.adjugate = m.toMatrix.transpose := by
  have hleft : m.toMatrix.transpose * m.toMatrix = 1 := by
    rw [← toMatrix_transpose, ← toMatrix_mul, h.orthonormal, toMatrix_one]
  have hdet : m.toMatrix.det = 1 := by
    rw [← det_eq, h.det_eq_one]
  calc m.toMatrix.adjugate
      = m.toMatrix.transpose * m.toMatrix * m.toMatrix.adjugate := by rw [hleft, Matrix.one_mul]
    _ = m.toMatrix.transpose := by
      rw [Matrix.mul_assoc, Matrix.mul_adjugate, hdet, one_smul, Matrix.mul_one]

/-- The equations between the entries of a rotation from which the others are recovered once the
first column and the last row are known. -/
theorem Proper.equations [IsStrictOrderedRing K] {a b c d e f g h i : K}
    (hr : Proper ⟨⟨a, b, c⟩, ⟨d, e, f⟩, ⟨g, h, i⟩⟩) :
    (a * a + d * d + g * g = 1 ∧ b * b + e * e + h * h = 1 ∧ g * g + h * h + i * i = 1) ∧
      (a * b + d * e + g * h = 0 ∧ a * c + d * f + g * i = 0) ∧
      i = a * e - b * d ∧ h = -(a * f) + c * d ∧ e = a * i - c * g ∧ f = -(a * h) + b * g := by
  have hcolumns := orthonormal_iff_columns.mp hr.orthonormal
  have hrow : (mul (⟨⟨⟨a, b, c⟩, ⟨d, e, f⟩, ⟨g, h, i⟩⟩⟩ : Matrix3 K)
      (transpose ⟨⟨⟨a, b, c⟩, ⟨d, e, f⟩, ⟨g, h, i⟩⟩⟩)).entry .z .z = 1 := by
    rw [mul_eq_one_symm hr.orthonormal]
    exact Exact.one_eq
  have hadjugate := hr.adjugate_eq
  rw [Matrix.adjugate_fin_three] at hadjugate
  have hcofactor : ∀ i j, _ = _ := fun i j => (congrFun (congrFun hadjugate i) j).symm
  simp only [columns, transpose, ofColumns, Affine.dot_eq] at hcolumns
  exact ⟨⟨hcolumns .x .x, hcolumns .y .y, (Affine.dot_eq _ _).symm.trans hrow⟩,
    ⟨hcolumns .x .y, hcolumns .x .z⟩, hcofactor 2 2, hcofactor 1 2, hcofactor 1 1, hcofactor 2 1⟩

theorem Proper.mul [IsStrictOrderedRing K] {a b : Matrix3 K} (ha : a.Proper) (hb : b.Proper) :
    (a.mul b).Proper := by
  refine ⟨ha.orthonormal.mul hb.orthonormal, ?_⟩
  rw [det_eq, toMatrix_mul, Matrix.det_mul, ← det_eq, ← det_eq, ha.det_eq_one, hb.det_eq_one]
  ring

end Matrix3

theorem Axis.proper_rotation [IsStrictOrderedRing K] [Trigonometry K] (h : Pythagorean K)
    (axis : Axis) (angle : K) : (axis.rotation angle).Proper := by
  refine ⟨Axis.orthonormal_rotation h axis angle, ?_⟩
  rw [Matrix3.det_eq, Matrix.det_fin_three]
  cases axis <;>
    simp only [Matrix3.toMatrix, rotation, Matrix.of_apply, Matrix.cons_val, Exact.zero_eq,
      Exact.one_eq] <;>
    linear_combination h angle

/-- Rotations composed of Euler angles keep orientation, in every order. -/
theorem Euler.proper_toMatrix [IsStrictOrderedRing K] [Trigonometry K] (h : Pythagorean K)
    (order : RotationOrder) (angles : Vec3 K) : (Euler.toMatrix order angles).Proper := by
  refine List.foldlRecOn (motive := Matrix3.Proper) _ _ Matrix3.proper_one ?_
  intro r hr axis _
  exact hr.mul (Axis.proper_rotation h axis _)

theorem Euler.toMatrix_zyx [Trigonometry K] (angles : Vec3 K) :
    Euler.toMatrix .zyx angles =
      let sx := Trigonometry.sin angles.x
      let cx := Trigonometry.cos angles.x
      let sy := Trigonometry.sin angles.y
      let cy := Trigonometry.cos angles.y
      let sz := Trigonometry.sin angles.z
      let cz := Trigonometry.cos angles.z
      ⟨⟨cz * cy, cz * sy * sx - sz * cx, cz * sy * cx + sz * sx⟩,
        ⟨sz * cy, sz * sy * sx + cz * cx, sz * sy * cx - cz * sx⟩,
        ⟨-sy, cy * sx, cy * cx⟩⟩ := by
  ext <;> simp [toMatrix, RotationOrder.axes, Axis.rotation, Matrix3.mul, Matrix3.one,
    Matrix3.diagonal, Matrix3.columns, Matrix3.transpose, Matrix3.ofColumns, Vec3.map, Vec3.get,
    Vec3.replicate, Affine.dot_eq, Exact.zero_eq, Exact.one_eq] <;> ring

end Exact

namespace Euler

open Matrix3

/-- Where the outer axes are distinct, the angles compose to the rotation. -/
theorem toMatrix_ofMatrix_of_free {r : Matrix3 ℝ} (hr : r.Proper) (hfree : isFree r = true) :
    toMatrix .zyx (ofMatrix r) = r := by
  obtain ⟨⟨⟨a, b, c⟩, ⟨d, e, f⟩, ⟨g, h, i⟩⟩⟩ := r
  obtain ⟨⟨hx, -, hz⟩, ⟨hxy, hxz⟩, hi, hh, -, -⟩ := hr.equations
  have hbound : gimbalBound < middleCosine _ := of_decide_eq_true hfree
  have hw : 0 < Trigonometry.hypot a d := (Exact.zero_lt_tenth 10).trans hbound
  have hsq := RealAngle.hypot_mul_self a d
  have hangles : ofMatrix ⟨⟨a, b, c⟩, ⟨d, e, f⟩, ⟨g, h, i⟩⟩ =
      ⟨Trigonometry.atan2 h i, Trigonometry.atan2 (-g) (Trigonometry.hypot a d),
        Trigonometry.atan2 d a⟩ := if_pos hfree
  rw [hangles, toMatrix_zyx]
  generalize Trigonometry.hypot a d = w at hw hsq
  have hmiddle : w * w + -g * -g = 1 * 1 := by linear_combination hsq + hx
  have hfirst : i * i + h * h = w * w := by linear_combination hz - hsq - hx
  simp only [RealAngle.cos_eq, RealAngle.sin_eq, RealAngle.cos_atan2 hw hsq.symm,
    RealAngle.sin_atan2 hw hsq.symm, RealAngle.cos_atan2 one_pos hmiddle,
    RealAngle.sin_atan2 one_pos hmiddle, RealAngle.cos_atan2 hw hfirst,
    RealAngle.sin_atan2 hw hfirst, div_one]
  refine Matrix3.ext (Vec3.ext (Vec3.ext ?_ ?_ ?_) (Vec3.ext ?_ ?_ ?_) (Vec3.ext ?_ ?_ ?_))
  · exact div_mul_cancel₀ a hw.ne'
  · field_simp
    linear_combination -a * hxy - d * hi - b * hsq
  · field_simp
    linear_combination -a * hxz + d * hh - c * hsq
  · exact div_mul_cancel₀ d hw.ne'
  · field_simp
    linear_combination -d * hxy + a * hi - e * hsq
  · field_simp
    linear_combination -d * hxz - a * hh - f * hsq
  · exact neg_neg g
  · exact mul_div_cancel₀ h hw.ne'
  · exact mul_div_cancel₀ i hw.ne'

theorem isFree_eq_false {r : Matrix3 ℝ} (h : middleCosine r = 0) : isFree r = false := by
  have hbound : ¬ gimbalBound < middleCosine r := by
    rw [h]
    exact (Exact.zero_lt_tenth 10).le.not_gt
  exact decide_eq_false hbound

theorem ofMatrix_of_gimbal {r : Matrix3 ℝ} (hfree : isFree r = false) : ofMatrix r =
    if r.rows.z.x < 0 then
      ⟨Trigonometry.atan2 r.rows.x.y r.rows.y.y, Real.pi / 2, 0⟩
    else ⟨Trigonometry.atan2 (-r.rows.x.y) r.rows.y.y, -Real.pi / 2, 0⟩ := by
  have htwo : @OfNat.ofNat ℝ 2 (Scalar.instOfNat 2) = 2 := by
    show (((2 : ℕ) : ℤ) : ℝ) = 2
    norm_num
  unfold ofMatrix
  rw [if_neg (Bool.eq_false_iff.mp hfree)]
  simp only [Exact.zero_eq, htwo]
  rfl

/-- Where the outer axes coincide, the angle about the first axis takes up the whole rotation. -/
theorem toMatrix_ofMatrix_of_gimbal {r : Matrix3 ℝ} (hr : r.Proper) (hzero : middleCosine r = 0) :
    toMatrix .zyx (ofMatrix r) = r := by
  rw [ofMatrix_of_gimbal (isFree_eq_false hzero)]
  obtain ⟨⟨⟨a, b, c⟩, ⟨d, e, f⟩, ⟨g, h, i⟩⟩⟩ := r
  obtain ⟨⟨hx, hy, hz⟩, -, -, -, he, hf⟩ := hr.equations
  have had : a * a + d * d = 0 := by
    rw [← RealAngle.hypot_mul_self, show Trigonometry.hypot a d = 0 from hzero, mul_zero]
  obtain ⟨rfl, rfl⟩ := mul_self_add_mul_self_eq_zero.mp had
  have hgg : g * g = 1 := by linear_combination hx
  have hhi : h * h + i * i = 0 := by linear_combination hz - hgg
  obtain ⟨rfl, rfl⟩ := mul_self_add_mul_self_eq_zero.mp hhi
  have hunit : e * e + b * b = 1 * 1 := by linear_combination hy
  have hunit' : e * e + -b * -b = 1 * 1 := by linear_combination hy
  rcases mul_self_eq_one_iff.mp hgg with rfl | rfl
  · obtain rfl : c = -e := by linear_combination he
    obtain rfl : f = b := by linear_combination hf
    rw [if_neg (by norm_num), toMatrix_zyx]
    simp only [RealAngle.cos_eq, RealAngle.sin_eq, RealAngle.cos_atan2 one_pos hunit',
      RealAngle.sin_atan2 one_pos hunit', neg_div, Real.cos_neg, Real.sin_neg, Real.cos_pi_div_two,
      Real.sin_pi_div_two, Real.cos_zero, Real.sin_zero]
    refine Matrix3.ext (Vec3.ext (Vec3.ext ?_ ?_ ?_) (Vec3.ext ?_ ?_ ?_) (Vec3.ext ?_ ?_ ?_))
    all_goals ring
  · obtain rfl : c = e := by linear_combination -he
    obtain rfl : f = -b := by linear_combination hf
    rw [if_pos (by norm_num), toMatrix_zyx]
    simp only [RealAngle.cos_eq, RealAngle.sin_eq, RealAngle.cos_atan2 one_pos hunit,
      RealAngle.sin_atan2 one_pos hunit, Real.cos_pi_div_two, Real.sin_pi_div_two, Real.cos_zero,
      Real.sin_zero]
    refine Matrix3.ext (Vec3.ext (Vec3.ext ?_ ?_ ?_) (Vec3.ext ?_ ?_ ?_) (Vec3.ext ?_ ?_ ?_))
    all_goals ring

/-- The angles of a rotation compose to it, unless the cosine of the middle angle is small without
being zero. -/
theorem toMatrix_ofMatrix {r : Matrix3 ℝ} (hr : r.Proper)
    (hcut : middleCosine r = 0 ∨ gimbalBound < middleCosine r) : toMatrix .zyx (ofMatrix r) = r :=
  hcut.elim (toMatrix_ofMatrix_of_gimbal hr) fun h =>
    toMatrix_ofMatrix_of_free hr (decide_eq_true h)

/-! ## No rotation -/

theorem toMatrix_replicate_zero : toMatrix .zyx (.replicate (0 : ℝ)) = .one := by
  rw [toMatrix_zyx]
  simp only [Vec3.replicate, RealAngle.sin_eq, RealAngle.cos_eq, Real.sin_zero, Real.cos_zero]
  ext <;> simp [one, diagonal, Vec3.replicate, Exact.zero_eq, Exact.one_eq]

theorem middleCosine_one : middleCosine (.one : Matrix3 ℝ) = 1 := by
  rw [middleCosine]
  simp only [one, diagonal, Vec3.replicate, Exact.zero_eq, Exact.one_eq]
  show √(1 * 1 + 0 * 0) = 1
  norm_num

theorem gimbalBound_lt_one : (gimbalBound : ℝ) < 1 := by
  rw [gimbalBound, Exact.tenth_eq]
  norm_num

theorem ofMatrix_one : ofMatrix (.one : Matrix3 ℝ) = .replicate 0 := by
  have hfree : isFree (.one : Matrix3 ℝ) = true := by
    refine decide_eq_true ?_
    rw [middleCosine_one]
    exact gimbalBound_lt_one
  unfold ofMatrix
  rw [if_pos hfree]
  simp only [middleCosine_one]
  simp only [one, diagonal, Vec3.replicate, Exact.zero_eq, Exact.one_eq, neg_zero,
    RealAngle.atan2_zero_one]

end Euler

end SparseVoxel

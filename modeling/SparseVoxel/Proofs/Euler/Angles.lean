import SparseVoxel.Proofs.Euler

/-!
# Composing and recovering angles

Over the real numbers composing the angles of a rotation and recovering the angles of a composed
rotation undo each other (`Euler.compose_recover`). The recovered angles are principal ones: the
outer angles reach one half turn and the middle angle one quarter turn to both sides, and the last
angle is zero where the middle one is a quarter turn (`Euler.principal_ofMatrix`). Conversely
principal angles are recovered, as long as the cosine of the middle one exceeds the bound below
which the outer axes count as coincident (`Euler.ofMatrix_toMatrix`).
-/

namespace SparseVoxel.Euler

open Real

/-- The angles that are recovered from a rotation are bounded, and where the outer axes coincide the
last angle is zero and the middle one a quarter turn. -/
structure Principal (r : Matrix3 ℝ) (angles : Vec3 ℝ) : Prop where
  abs_x_le : |angles.x| ≤ π
  abs_y_le : |angles.y| ≤ π / 2
  abs_z_le : |angles.z| ≤ π
  of_gimbal : middleCosine r = 0 → angles.z = 0 ∧ (angles.y = π / 2 ∨ angles.y = -(π / 2))

/-! ## The recovered angles -/

theorem ofMatrix_of_free {r : Matrix3 ℝ} (hfree : isFree r = true) : ofMatrix r =
    ⟨Trigonometry.atan2 r.rows.z.y r.rows.z.z, Trigonometry.atan2 (-r.rows.z.x) (middleCosine r),
      Trigonometry.atan2 r.rows.y.x r.rows.x.x⟩ :=
  if_pos hfree

theorem abs_quarter_le : |π / 2| ≤ π / 2 :=
  (abs_of_pos pi_div_two_pos).le

/-- Principal angles are recovered from every matrix. -/
theorem principal_ofMatrix (r : Matrix3 ℝ) : Principal r (ofMatrix r) := by
  have hzero : |(0 : ℝ)| ≤ π := abs_zero.trans_le pi_pos.le
  cases hfree : isFree r with
  | true =>
    rw [ofMatrix_of_free hfree]
    refine ⟨RealAngle.abs_atan2_le_pi _ _,
      RealAngle.abs_atan2_le_pi_div_two _ (RealAngle.hypot_nonneg _ _),
      RealAngle.abs_atan2_le_pi _ _, fun hgimbal => ?_⟩
    rw [isFree_eq_false hgimbal] at hfree
    contradiction
  | false =>
    rw [ofMatrix_of_gimbal hfree]
    split
    · exact ⟨RealAngle.abs_atan2_le_pi _ _, abs_quarter_le, hzero, fun _ => ⟨rfl, Or.inl rfl⟩⟩
    · rw [neg_div]
      exact ⟨RealAngle.abs_atan2_le_pi _ _, (abs_neg _).trans_le abs_quarter_le, hzero,
        fun _ => ⟨rfl, Or.inr rfl⟩⟩

/-! ## Angles of a composed rotation -/

theorem middleCosine_toMatrix {angles : Vec3 ℝ} (hy : 0 ≤ cos angles.y) :
    middleCosine (toMatrix .zyx angles) = cos angles.y := by
  rw [middleCosine, toMatrix_zyx]
  exact RealAngle.hypot_mul_cos_sin hy angles.z

theorem isFree_toMatrix {angles : Vec3 ℝ} (hcos : gimbalBound < cos angles.y) :
    isFree (toMatrix .zyx angles) = true := by
  have hpos : 0 < cos angles.y := (Exact.zero_lt_tenth 10).trans hcos
  refine decide_eq_true ?_
  rwa [middleCosine_toMatrix hpos.le]

/-- Angles are recovered from the rotation that they compose to. -/
theorem ofMatrix_toMatrix {angles : Vec3 ℝ} (hx : angles.x ∈ Set.Ioc (-π) π)
    (hy : angles.y ∈ Set.Ioo (-(π / 2)) (π / 2)) (hz : angles.z ∈ Set.Ioc (-π) π)
    (hcos : gimbalBound < cos angles.y) : ofMatrix (toMatrix .zyx angles) = angles := by
  have hpos : 0 < cos angles.y := (Exact.zero_lt_tenth 10).trans hcos
  have hmiddle : angles.y ∈ Set.Ioc (-π) π :=
    ⟨by linarith only [hy.1, pi_pos], by linarith only [hy.2, pi_pos]⟩
  have hfirst := RealAngle.atan2_mul_sin_cos hpos hx
  have hsecond := RealAngle.atan2_mul_sin_cos one_pos hmiddle
  have hthird := RealAngle.atan2_mul_sin_cos hpos hz
  rw [one_mul, one_mul] at hsecond
  rw [mul_comm, mul_comm _ (cos angles.z)] at hthird
  rw [ofMatrix_of_free (isFree_toMatrix hcos), middleCosine_toMatrix hpos.le, toMatrix_zyx]
  refine Vec3.ext hfirst ?_ hthird
  simp only [neg_neg]
  exact hsecond

/-! ## Both ways -/

theorem gimbalBound_eq : (gimbalBound : ℝ) = 1 / 10 ^ 10 :=
  Exact.tenth_eq 10

/-- **Recovering angles and composing them undo each other.** The angles of a rotation are principal
and compose to it, unless the cosine of the middle angle is small without being zero; and angles are
recovered from the rotation that they compose to, in their range and above the same bound. -/
theorem compose_recover :
    (∀ r : Matrix3 ℝ, r.Proper → middleCosine r = 0 ∨ 1 / 10 ^ 10 < middleCosine r →
      toMatrix? .zyx (ofMatrix r) = .ok r ∧ Principal r (ofMatrix r)) ∧
    ∀ angles : Vec3 ℝ, angles.x ∈ Set.Ioc (-π) π → angles.y ∈ Set.Ioo (-(π / 2)) (π / 2) →
      angles.z ∈ Set.Ioc (-π) π → 1 / 10 ^ 10 < cos angles.y →
      (toMatrix? .zyx angles).map ofMatrix = .ok angles := by
  simp only [← gimbalBound_eq]
  constructor
  · intro r hr hcut
    refine ⟨?_, principal_ofMatrix r⟩
    rw [toMatrix?_eq_ok .zyx fun _ => rfl, toMatrix_ofMatrix hr hcut]
  · intro angles hx hy hz hcos
    rw [toMatrix?_eq_ok .zyx fun _ => rfl, Except.map, ofMatrix_toMatrix hx hy hz hcos]

/-- A rotation whose outer axes coincide, and angles of which two are at the end of their range. -/
theorem compose_recover_of_gimbal :
    let r : Matrix3 ℝ := ⟨⟨0, 3 / 5, 4 / 5⟩, ⟨0, 4 / 5, -(3 / 5)⟩, ⟨-1, 0, 0⟩⟩
    let angles : Vec3 ℝ := ⟨π, π / 3, -(π / 2)⟩
    (middleCosine r = 0 ∧ toMatrix? .zyx (ofMatrix r) = .ok r ∧ (ofMatrix r).z = 0) ∧
      (toMatrix? .zyx angles).map ofMatrix = .ok angles := by
  intro r angles
  have hproper : r.Proper := by
    constructor
    · refine Matrix3.orthonormal_iff_columns.mpr fun i j => ?_
      rw [Matrix3.dot_columns]
      cases i <;> cases j <;> simp [r, Matrix3.entry, Vec3.get] <;> norm_num
    · rw [Matrix3.det_eq, Matrix.det_fin_three]
      simp only [r, Matrix3.toMatrix, Matrix.of_apply, Matrix.cons_val]
      norm_num
  have hzero : middleCosine r = 0 := by
    show √(0 * 0 + 0 * 0) = 0
    norm_num
  obtain ⟨hcompose, hprincipal⟩ := compose_recover.1 r hproper (Or.inl hzero)
  refine ⟨⟨hzero, hcompose, (hprincipal.of_gimbal hzero).1⟩, compose_recover.2 angles ?_ ?_ ?_ ?_⟩
  · show -π < π ∧ π ≤ π
    exact ⟨by linarith only [pi_pos], le_rfl⟩
  · show -(π / 2) < π / 3 ∧ π / 3 < π / 2
    exact ⟨by linarith only [pi_pos], by linarith only [pi_pos]⟩
  · show -π < -(π / 2) ∧ -(π / 2) ≤ π
    exact ⟨by linarith only [pi_pos], by linarith only [pi_pos]⟩
  · rw [cos_pi_div_three]
    norm_num

end SparseVoxel.Euler

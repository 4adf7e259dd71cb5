import SparseVoxel.Proofs.Affine.PivotMap
import SparseVoxel.Proofs.Euler
import SparseVoxel.Proofs.Scalar.QuarterTurns

/-!
# Both matrices of a pivoted map

The matrix of a pivoted map is a product of five factors, and its inverse is written down from the
parameters, with the transposed rotation and the reciprocals of the scale. In exact arithmetic the
two undo each other from both sides for every order of rotation, every pivot and every scale without
a zero, and where the numeric inverse of the matrix exists it is the same one
(`PivotMap.matrices_of_order`).
-/

namespace SparseVoxel.PivotMap

variable {K : Type} [Field K] [LinearOrder K] [FloorRing K]

/-! ## The matrix -/

theorem isAffine_matrixWith (m : PivotMap K) (r : Matrix3 K) :
    (m.matrixWith r).isAffine = true := by
  rw [matrixWith, Affine.pivoted_some]
  exact Matrix4.isAffine_affine _ _

/-- A point is scaled and turned about the pivot and then shifted. -/
theorem apply_matrixWith (m : PivotMap K) (r : Matrix3 K) (x : Vec3 K) :
    (m.matrixWith r).apply x =
      r.mulVec (m.scale.zipWith (· * ·) (x - m.pivot)) + m.pivot + m.shift := by
  rw [matrixWith, Affine.pivoted_some, Matrix4.apply_affine]
  ext <;>
    simp only [Matrix3.mulVec, Matrix3.scaleColumns, Vec3.map, Vec3.zipWith, Affine.dot_eq,
      Vec3.add_x, Vec3.add_y, Vec3.add_z, Vec3.sub_x, Vec3.sub_y, Vec3.sub_z, Vec3.neg_x,
      Vec3.neg_y, Vec3.neg_z] <;>
    ring

/-- The pivot is only shifted. -/
theorem apply_matrixWith_pivot (m : PivotMap K) (r : Matrix3 K) :
    (m.matrixWith r).apply m.pivot = m.pivot + m.shift := by
  have hzero : m.scale.zipWith (· * ·) (m.pivot - m.pivot) = .replicate 0 := by
    ext <;> simp [Vec3.zipWith, Vec3.replicate]
  rw [apply_matrixWith, hzero, Matrix3.mulVec_replicate_zero, Vec3.replicate_zero_add]

/-! ## The inverse -/

section Inverse

variable {m : PivotMap K} {r : Matrix3 K}

theorem inverseWith_mul_matrixWith (hr : r.Orthonormal) (hs : ∀ axis, m.scale.get axis ≠ 0) :
    (m.inverseWith r).mul (m.matrixWith r) = .one :=
  (Matrix4.mul_eq_one_iff (Matrix4.isAffine_affine _ _) (m.isAffine_matrixWith r)).mpr
    (inverseWith_apply_matrixWith hr hs)

theorem matrixWith_mul_inverseWith (hr : r.Orthonormal) (hs : ∀ axis, m.scale.get axis ≠ 0) :
    (m.matrixWith r).mul (m.inverseWith r) = .one :=
  Matrix4.mul_eq_one_symm (Matrix4.isAffine_affine _ _) (m.isAffine_matrixWith r)
    (inverseWith_mul_matrixWith hr hs)

variable [IsStrictOrderedRing K]

/-- The determinant of the linear block is the product of the scale. -/
theorem det_matrixWith (hr : r.Proper) :
    (m.matrixWith r).linear.det = m.scale.x * m.scale.y * m.scale.z := by
  have hdet := Matrix3.det_scaleColumns r m.scale
  rw [← Matrix3.det_eq r, hr.det_eq_one, one_mul, ← Matrix3.det_eq] at hdet
  rw [matrixWith, Affine.pivoted_some]
  exact hdet

/-- Unless the scale is too small, the numeric inverse is the one from the parameters. -/
theorem invert?_matrixWith (hr : r.Proper) (hs : ∀ axis, m.scale.get axis ≠ 0)
    (hscale : 1 / 10 ^ 12 ≤ |m.scale.x * m.scale.y * m.scale.z|) :
    (m.matrixWith r).invert? = some (m.inverseWith r) := by
  have hregular : (m.matrixWith r).isRegular = true := by
    rw [Matrix4.isRegular_iff, Matrix4.singularBound, Exact.tenth_eq, det_matrixWith hr]
    exact hscale
  exact Matrix4.invert?_eq_of_mul (m.isAffine_matrixWith r) (Matrix4.isAffine_affine _ _) hregular
    (inverseWith_mul_matrixWith hr.orthonormal hs)

end Inverse

/-! ## Maps with an order of rotation -/

theorem not_le_abs_of_zero [IsStrictOrderedRing K] {s : Vec3 K} {axis : Axis}
    (h : s.get axis = 0) : ¬ 1 / 10 ^ 12 ≤ |s.x * s.y * s.z| := by
  have hproduct : s.x * s.y * s.z = 0 := by
    cases axis <;> simp only [Vec3.get] at h <;> simp [h]
  rw [hproduct, abs_zero, not_le]
  positivity

variable [Trigonometry K]

theorem rotationMatrix?_eq_ok {m : PivotMap K} {order : RotationOrder}
    (horder : RotationOrder.ofName? m.order = .ok order) :
    m.rotationMatrix? = .ok (Euler.toMatrix order m.rotation) :=
  bind_eq_ok.mpr ⟨order, horder, Euler.toMatrix?_eq_ok order fun _ => rfl⟩

/-- A map has no inverse matrix if some axis is scaled to nothing, and else the one from its
parameters. -/
theorem inverseMatrix?_cases {m : PivotMap K} {order : RotationOrder}
    (horder : RotationOrder.ofName? m.order = .ok order) :
    (m.inverseMatrix? = .ok none ∧ ∃ axis, m.scale.get axis = 0) ∨
      (m.inverseMatrix? = .ok (some (m.inverseWith (Euler.toMatrix order m.rotation))) ∧
        ∀ axis, m.scale.get axis ≠ 0) := by
  unfold inverseMatrix?
  split
  · next hzero => exact Or.inl ⟨rfl, collapses_iff.mp hzero⟩
  · next hzero =>
    rw [rotationMatrix?_eq_ok horder]
    exact Or.inr ⟨rfl, not_exists.mp fun h => hzero (collapses_iff.mpr h)⟩

/-- What the matrices of a map are to each other. The inverse is told by `inverse`, which is absent
where some axis is scaled to nothing. -/
structure Matrices (m : PivotMap K) (r : Matrix3 K) (forward : Matrix4 K)
    (inverse : Option (Matrix4 K)) : Prop where
  /-- The rotation is orthonormal and has determinant one. -/
  proper : r.Proper
  bottom_eq : forward.bottom = .replicate 0
  corner_eq : forward.corner = 1
  /-- Points are scaled and turned about the pivot and then shifted. -/
  apply_eq : ∀ x, forward.apply x =
    r.mulVec (m.scale.zipWith (· * ·) (x - m.pivot)) + m.pivot + m.shift
  apply_pivot : forward.apply m.pivot = m.pivot + m.shift
  inverse_eq_none : inverse = none ↔ ∃ axis, m.scale.get axis = 0
  /-- The inverse undoes the matrix from both sides. -/
  mul_eq_one : ∀ inv ∈ inverse, forward.mul inv = .one ∧ inv.mul forward = .one
  /-- Numeric inversion gives the same inverse, unless the matrix counts as singular. -/
  invert?_eq : 1 / 10 ^ 12 ≤ |m.scale.x * m.scale.y * m.scale.z| → forward.invert? = inverse

variable [IsStrictOrderedRing K]

/-- **The matrix and the inverse of a map undo each other.** For every accepted order of rotation
neither is refused. -/
theorem matrices_of_order (hpythagoras : Pythagorean K) (m : PivotMap K) {order : RotationOrder}
    (horder : RotationOrder.ofName? m.order = .ok order) :
    ∃ forward inverse, m.rotationMatrix? = .ok (Euler.toMatrix order m.rotation) ∧
      m.toMatrix? = .ok forward ∧ m.inverseMatrix? = .ok inverse ∧
      m.Matrices (Euler.toMatrix order m.rotation) forward inverse := by
  have hrotation := rotationMatrix?_eq_ok horder
  have hforward : m.toMatrix? = .ok (m.matrixWith (Euler.toMatrix order m.rotation)) :=
    bind_eq_ok.mpr ⟨_, hrotation, rfl⟩
  have hproper := Euler.proper_toMatrix hpythagoras order m.rotation
  obtain ⟨hbottom, hcorner⟩ := Matrix4.isAffine_iff.mp
    (m.isAffine_matrixWith (Euler.toMatrix order m.rotation))
  rw [Exact.ofInt_eq, Int.cast_zero] at hbottom
  rw [Exact.ofInt_eq, Int.cast_one] at hcorner
  rcases inverseMatrix?_cases horder with ⟨hinverse, axis, hzero⟩ | ⟨hinverse, hs⟩
  · refine ⟨_, _, hrotation, hforward, hinverse, hproper, hbottom, hcorner, m.apply_matrixWith _,
      m.apply_matrixWith_pivot _, iff_of_true rfl ⟨axis, hzero⟩, nofun, fun hscale => ?_⟩
    exact absurd hscale (not_le_abs_of_zero hzero)
  · refine ⟨_, _, hrotation, hforward, hinverse, hproper, hbottom, hcorner, m.apply_matrixWith _,
      m.apply_matrixWith_pivot _, iff_of_false (Option.some_ne_none _) (not_exists.mpr hs), ?_,
      invert?_matrixWith hproper hs⟩
    rintro inv ⟨⟩
    exact ⟨matrixWith_mul_inverseWith hproper.orthonormal hs,
      inverseWith_mul_matrixWith hproper.orthonormal hs⟩

section Reflection

open QuarterTurns

/-- A map that reflects one axis and stretches another about a pivot, with two quarter turns and an
order that is named in capitals. -/
theorem matrices_of_order_of_reflection :
    let m : PivotMap ℚ := ⟨⟨1, -2, 1 / 2⟩, ⟨-1, 3, 1 / 2⟩, ⟨1, 0, 3⟩, ⟨7, 0, -1 / 3⟩, "YXZ"⟩
    RotationOrder.ofName? m.order = .ok .yxz ∧ ∃ forward inverse,
      m.toMatrix? = .ok forward ∧ m.inverseMatrix? = .ok (some inverse) ∧
      m.Matrices (Euler.toMatrix .yxz m.rotation) forward (some inverse) := by
  intro m
  have hname : Text.lowercase "YXZ" = "yxz" := by decide +kernel
  have horder : RotationOrder.ofName? "YXZ" = .ok .yxz := by
    rw [RotationOrder.ofName?, hname]
    rfl
  obtain ⟨forward, inverse, -, hforward, hinverse, hmatrices⟩ :=
    matrices_of_order pythagorean m horder
  have hsome : inverse ≠ none := by
    rw [ne_eq, hmatrices.inverse_eq_none]
    rintro ⟨axis, hzero⟩
    cases axis <;> simp [m, Vec3.get] at hzero
  obtain ⟨inv, rfl⟩ := Option.ne_none_iff_exists'.mp hsome
  exact ⟨horder, forward, inv, hforward, hinverse, hmatrices⟩

end Reflection

end SparseVoxel.PivotMap

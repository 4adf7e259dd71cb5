import SparseVoxel.Proofs.Matrix.Elimination
import SparseVoxel.Matrix.Four

/-!
# Affine matrices in exact arithmetic

An affine matrix of order four is its linear block and its offset, it is told by what it does to
points (`ext_apply`), and the product of two applies one after the other (`apply_mul`). An inverse
that is found undoes the matrix from both sides (`apply_apply_of_invert?`,
`apply_of_invert?_apply`), and there is no other one (`invert?_eq_of_mul`).
-/

namespace SparseVoxel.Matrix4

variable {K : Type} [Field K] [LinearOrder K] [FloorRing K]

/-! ## Affine matrices -/

theorem isAffine_iff {m : Matrix4 K} :
    m.isAffine = true ↔ m.bottom = .replicate (Scalar.ofInt 0) ∧ m.corner = Scalar.ofInt 1 := by
  rw [isAffine, Bool.and_eq_true, beq_iff_eq, beq_iff_eq]
  rfl

theorem isAffine_affine (linear : Matrix3 K) (offset : Vec3 K) :
    (affine linear offset).isAffine = true :=
  isAffine_iff.mpr ⟨rfl, rfl⟩

theorem eq_affine {m : Matrix4 K} (h : m.isAffine = true) : m = affine m.linear m.offset := by
  obtain ⟨hbottom, hcorner⟩ := isAffine_iff.mp h
  exact Matrix4.ext rfl rfl hbottom hcorner

theorem affine_mul_affine (a b : Matrix3 K) (v w : Vec3 K) :
    (affine a v).mul (affine b w) = affine (a.mul b) (a.mulVec w + v) := by
  ext <;> simp [mul, affine, Matrix3.mul, Matrix3.mulVec, Vec3.zipWith, Vec3.map, Vec3.replicate,
    Affine.dot_eq, Exact.zero_eq, Exact.one_eq]

theorem isAffine_mul {a b : Matrix4 K} (ha : a.isAffine = true) (hb : b.isAffine = true) :
    (a.mul b).isAffine = true := by
  rw [eq_affine ha, eq_affine hb, affine_mul_affine]
  exact isAffine_affine _ _

/-- A product applies its factors one after the other. -/
theorem apply_mul {a b : Matrix4 K} (ha : a.isAffine = true) (hb : b.isAffine = true)
    (p : Vec3 K) : (a.mul b).apply p = a.apply (b.apply p) := by
  rw [eq_affine ha, eq_affine hb, affine_mul_affine]
  simp only [apply, affine, ← Matrix3.mulVec_mulVec, Matrix3.mulVec_add]
  exact Vec3.ext (add_assoc _ _ _).symm (add_assoc _ _ _).symm (add_assoc _ _ _).symm

theorem apply_affine (linear : Matrix3 K) (offset p : Vec3 K) :
    (affine linear offset).apply p = linear.mulVec p + offset :=
  rfl

theorem apply_one (p : Vec3 K) : one.apply p = p := by
  rw [one, apply_affine, Matrix3.one_mulVec]
  exact Vec3.ext (by simp [Vec3.replicate, Exact.zero_eq]) (by simp [Vec3.replicate, Exact.zero_eq])
    (by simp [Vec3.replicate, Exact.zero_eq])

/-- An affine matrix is told by what it does to points. -/
theorem ext_apply {a b : Matrix4 K} (ha : a.isAffine = true) (hb : b.isAffine = true)
    (h : ∀ p, a.apply p = b.apply p) : a = b := by
  rw [eq_affine ha, eq_affine hb] at h ⊢
  have hentry : ∀ v, a.linear.mulVec v + a.offset = b.linear.mulVec v + b.offset := h
  have hoffset : a.offset = b.offset := by
    have hzero := hentry (.replicate 0)
    rw [Matrix3.mulVec_replicate_zero, Matrix3.mulVec_replicate_zero, Vec3.ext_iff] at hzero
    exact Vec3.ext (add_left_cancel hzero.1) (add_left_cancel hzero.2.1)
      (add_left_cancel hzero.2.2)
  have hlinear : a.linear = b.linear := by
    refine Matrix3.ext_mulVec fun v => ?_
    have hv := hentry v
    rw [hoffset, Vec3.ext_iff] at hv
    exact Vec3.ext (add_right_cancel hv.1) (add_right_cancel hv.2.1) (add_right_cancel hv.2.2)
  rw [hlinear, hoffset]

/-- One affine matrix undoes another if their product is the identity. -/
theorem mul_eq_one_iff {a b : Matrix4 K} (ha : a.isAffine = true) (hb : b.isAffine = true) :
    a.mul b = one ↔ ∀ p, a.apply (b.apply p) = p := by
  constructor
  · intro h p
    rw [← apply_mul ha hb, h, apply_one]
  · intro h
    refine ext_apply (isAffine_mul ha hb) (isAffine_affine _ _) fun p => ?_
    rw [apply_mul ha hb, h, apply_one]

/-- An inverse on one side is an inverse on the other. -/
theorem mul_eq_one_symm {a b : Matrix4 K} (ha : a.isAffine = true) (hb : b.isAffine = true)
    (h : a.mul b = one) : b.mul a = one := by
  have hlinear : b.linear.mul a.linear = .one := by
    refine Matrix3.mul_eq_one_symm ?_
    rw [eq_affine ha, eq_affine hb, affine_mul_affine] at h
    exact congrArg linear h
  have hinjective : ∀ p q, a.apply p = a.apply q → p = q := by
    intro p q hpq
    have hlin : a.linear.mulVec p = a.linear.mulVec q := by
      rw [eq_affine ha, apply_affine, apply_affine, Vec3.ext_iff] at hpq
      exact Vec3.ext (add_right_cancel hpq.1) (add_right_cancel hpq.2.1)
        (add_right_cancel hpq.2.2)
    rw [← Matrix3.one_mulVec p, ← Matrix3.one_mulVec q, ← hlinear, ← Matrix3.mulVec_mulVec,
      ← Matrix3.mulVec_mulVec, hlin]
  rw [mul_eq_one_iff hb ha]
  intro p
  exact hinjective _ _ ((mul_eq_one_iff ha hb).mp h (a.apply p))

/-! ## Inverses -/

theorem invert?_eq_some {m inv : Matrix4 K} (h : m.invert? = some inv) : m.isRegular = true ∧
    inv = affine m.linear.inverse (m.linear.inverse.neg.mulVec m.offset) := by
  unfold invert? at h
  split at h
  · next hregular => exact ⟨hregular, (Option.some.inj h).symm⟩
  · cases h

theorem isAffine_of_invert? {m inv : Matrix4 K} (h : m.invert? = some inv) :
    inv.isAffine = true := by
  rw [(invert?_eq_some h).2]
  exact isAffine_affine _ _

variable [IsStrictOrderedRing K]

theorem isRegular_iff {m : Matrix4 K} : m.isRegular = true ↔ singularBound ≤ |m.linear.det| := by
  show (true && !decide (Scalar.abs m.linear.det < singularBound)) = true ↔ _
  rw [Bool.true_and, Bool.not_eq_true', decide_eq_false_iff_not, Exact.abs_eq]
  exact not_lt

theorem det_ne_zero_of_isRegular {m : Matrix4 K} (h : m.isRegular = true) : m.linear.det ≠ 0 := by
  intro hzero
  have hbound : (singularBound : K) ≤ |m.linear.det| := isRegular_iff.mp h
  rw [hzero, abs_zero] at hbound
  exact absurd (Exact.zero_lt_tenth (K := K) 12) (not_lt.mpr hbound)

variable {m inv : Matrix4 K}

/-- An inverse undoes the matrix. -/
theorem apply_of_invert?_apply (h : m.invert? = some inv) (p : Vec3 K) :
    inv.apply (m.apply p) = p := by
  obtain ⟨hregular, rfl⟩ := invert?_eq_some h
  have hone := Matrix3.inverse_mul (det_ne_zero_of_isRegular hregular)
  simp only [apply, affine, Matrix3.mulVec_add, Matrix3.mulVec_mulVec, hone, Matrix3.one_mulVec,
    Matrix3.neg_mulVec]
  exact Vec3.ext (add_neg_cancel_right _ _) (add_neg_cancel_right _ _) (add_neg_cancel_right _ _)

/-- The matrix undoes its inverse. -/
theorem apply_apply_of_invert? (h : m.invert? = some inv) (p : Vec3 K) :
    m.apply (inv.apply p) = p := by
  obtain ⟨hregular, rfl⟩ := invert?_eq_some h
  have hone := Matrix3.mul_inverse (det_ne_zero_of_isRegular hregular)
  simp only [apply, affine, Matrix3.mulVec_add, Matrix3.neg_mulVec, Matrix3.mulVec_neg,
    Matrix3.mulVec_mulVec, hone, Matrix3.one_mulVec]
  exact Vec3.ext (neg_add_cancel_right _ _) (neg_add_cancel_right _ _) (neg_add_cancel_right _ _)

/-- What undoes a matrix that is not singular is its numeric inverse. -/
theorem invert?_eq_of_mul (hm : m.isAffine = true) (hinv : inv.isAffine = true)
    (hregular : m.isRegular = true) (h : inv.mul m = one) : m.invert? = some inv := by
  have hsome : m.invert? = some _ := if_pos hregular
  have hback := (mul_eq_one_iff hinv hm).mp h
  rw [hsome, Option.some.injEq]
  refine ext_apply (isAffine_affine _ _) hinv fun p => ?_
  rw [← hback (Matrix4.apply _ p), apply_apply_of_invert? hsome]

end SparseVoxel.Matrix4

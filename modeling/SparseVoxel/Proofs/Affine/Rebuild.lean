import SparseVoxel.Proofs.Affine.Extended
import SparseVoxel.Proofs.Affine.Parts
import SparseVoxel.Proofs.Matrix.Strict
import SparseVoxel.Proofs.Resampler.Split
import SparseVoxel.Proofs.Scalar.QuarterTurns

/-!
# What the parts of a matrix compose to

The search compares the block that the angles rebuild with the given one, but what uses the parts
multiplies matrices of four rows, with a pivot or without. The comparison holds only between finite
values, so nothing that enters those products is infinite (`Split.isFinite_rotation`,
`Split.isFinite_scale`), and every way to compose the parts gives the block that was compared
(`describes_of_ofMatrix?`). The functions of angles are arbitrary, also in what they make of finite
values.
-/

namespace SparseVoxel.AffineParts

/-- A matrix agrees with another in every linear entry to within a tolerance, and exactly
elsewhere. -/
structure Rebuilds {L : Type} [Scalar L] (m : Matrix4 L) (t : L) (m' : Matrix4 L) : Prop where
  linear : ∀ i j, Scalar.abs (m.linear.entry i j - m'.linear.entry i j) ≤ t
  offset_eq : m'.offset = m.offset
  bottom_eq : m'.bottom = m.bottom
  corner_eq : m'.corner = m.corner

open Extended (finite)

/-- What the parts of a matrix say of it, where `t` is the tolerance. -/
structure Describes {L : Type} [Scalar L] [Trigonometry L] (m : Matrix4 L) (t : L)
    (d : AffineParts L) : Prop where
  bottom_eq : m.bottom = .replicate (Scalar.ofInt 0)
  corner_eq : m.corner = Scalar.ofInt 1
  isFinite : ∀ row ∈ m.toRows, ∀ a ∈ row, Scalar.isFinite a = true
  shift_eq : d.shift = m.offset
  /-- The scale of an axis is the length of its column up to the sign, and no column is
  negligible. -/
  abs_scale : ∀ axis, Scalar.abs (d.scale.get axis) = m.linear.columnNorms.get axis ∧
    t < m.linear.columnNorms.get axis
  /-- The parts compose to the matrix, by themselves and as a map without pivot. -/
  toMatrix? : ∃ m', d.toMatrix? = .ok m' ∧ Rebuilds m t m'
  toPivotMap : ∃ m', d.toPivotMap.toMatrix? = .ok m' ∧ Rebuilds m t m'
  /-- So does the resampler of the matrix, if this is its tolerance. -/
  ofSplit? : ∀ o : Resampler.Options L, o.splitTolerance = .ok t →
    ∃ r, Resampler.ofSplit? o m = .ok (some r) ∧ Rebuilds m t r.forward
  /-- Columns of unequal lengths leave no angle above the tolerance. -/
  angles_le : (∃ axis, t + t * Scalar.abs m.linear.columnNorms.x <
      Scalar.abs (m.linear.columnNorms.get axis - m.linear.columnNorms.x)) →
    ∀ axis, Scalar.abs (d.rotation.get axis) ≤ t

variable {K : Type} [Field K] [LinearOrder K] [FloorRing K]
variable [Trigonometry (Extended K)] {m : Matrix4 (Extended K)} {t : Extended K}
variable {d : AffineParts (Extended K)}

theorem Split.isFinite_shift (h : Split m t d) (axis : Axis) :
    Scalar.isFinite (d.shift.get axis) = true := by
  rw [h.shift_eq]
  exact (Matrix4.isFinite_entries h.isFinite).2 axis

variable [IsStrictOrderedRing K]

namespace Split

/-- The block that is rebuilt from the parts is finite and within the tolerance. -/
theorem entry_spec (h : Split m t d) (ht : Scalar.ofInt 0 ≤ t) (i j : Axis) :
    Scalar.isFinite (((Euler.toMatrix .zyx d.rotation).scaleColumns d.scale).entry i j) = true ∧
      Scalar.abs (m.linear.entry i j -
        ((Euler.toMatrix .zyx d.rotation).scaleColumns d.scale).entry i j) ≤ t := by
  obtain ⟨a, ha⟩ := Extended.isFinite_iff.mp ((Matrix4.isFinite_entries h.isFinite).1 i j)
  have hnear := Matrix3.near_eq_true_iff.mp h.near i j
  rw [ha] at hnear ⊢
  exact Extended.near_spec ht hnear

theorem isFinite_rotation (h : Split m t d) (ht : Scalar.ofInt 0 ≤ t) (i j : Axis) :
    Scalar.isFinite ((Euler.toMatrix .zyx d.rotation).entry i j) = true := by
  have hfinite := (h.entry_spec ht i j).1
  rw [Matrix3.entry_scaleColumns] at hfinite
  exact (Extended.mul_eq_finite hfinite).1

theorem isFinite_scale (h : Split m t d) (ht : Scalar.ofInt 0 ≤ t) (axis : Axis) :
    Scalar.isFinite (d.scale.get axis) = true := by
  have hfinite := (h.entry_spec ht axis axis).1
  rw [Matrix3.entry_scaleColumns] at hfinite
  exact (Extended.mul_eq_finite hfinite).2

/-- The rotation with scaled columns, shifted, agrees with the matrix. -/
theorem rebuilds (h : Split m t d) (ht : Scalar.ofInt 0 ≤ t) : Rebuilds m t
    (.affine ((Euler.toMatrix .zyx d.rotation).scaleColumns d.scale) d.shift) := by
  obtain ⟨hbottom, hcorner⟩ := Extended.isAffine_iff.mp h.isAffine
  exact ⟨fun i j => (h.entry_spec ht i j).2, h.shift_eq, hbottom.symm, hcorner.symm⟩

/-- The tolerance and the lengths of the columns are numbers, and the scale is a length up to its
sign. -/
theorem exists_norm (h : Split m t d) (ht : Scalar.ofInt 0 ≤ t) (axis : Axis) :
    ∃ u n : K, t = finite u ∧ 0 ≤ u ∧ u < n ∧ m.linear.columnNorms.get axis = finite n ∧
      Scalar.abs (d.scale.get axis) = finite n := by
  obtain ⟨signs, hsigns, hscale⟩ := h.exists_signs
  have hproduct : d.scale.get axis = m.linear.columnNorms.get axis * signs.get axis := by
    rw [hscale]
    exact Vec3.get_zipWith _ _ _ _
  have hfinite := h.isFinite_scale ht axis
  rw [hproduct] at hfinite
  obtain ⟨n, hn⟩ := Extended.isFinite_iff.mp (Extended.mul_eq_finite hfinite).1
  have hgt := h.norms_gt axis
  rw [hn] at hgt
  obtain ⟨u, hu, hnonneg, hlt⟩ := Extended.exists_finite_of_lt ht hgt
  refine ⟨u, n, hu, hnonneg, hlt, hn, ?_⟩
  have habs : |n| = n := abs_of_nonneg (hnonneg.trans hlt.le)
  rw [hproduct, hn]
  rcases mem_signChoices_iff.mp hsigns axis with hsign | hsign
  · rw [hsign]
    show Scalar.abs (finite (n * ((1 : Int) : K))) = finite n
    rw [Int.cast_one, mul_one, Extended.abs_finite, habs]
  · rw [hsign]
    show Scalar.abs (finite (n * -((1 : Int) : K))) = finite n
    rw [Int.cast_one, mul_neg, mul_one, Extended.abs_finite, abs_neg, habs]

/-- The turn of a split is a number that no angle exceeds. -/
theorem exists_turn (h : Split m t d) : ∃ w : K, (Candidate.mk d.scale d.rotation).turn = finite w ∧
    ∀ axis, ∃ a : K, d.rotation.get axis = finite a ∧ |a| ≤ w := by
  have hx := Extended.abs_ne_infinite d.rotation.x
  have hy := Extended.abs_ne_infinite d.rotation.y
  have hz := Extended.abs_ne_infinite d.rotation.z
  obtain ⟨hxy, hfinite⟩ := Extended.greatest_spec hx hy
  obtain ⟨hxyz, hfinite'⟩ := Extended.greatest_spec hxy hz
  -- The search keeps a candidate only after comparing its turn, which rules out what is no number.
  have hturn : Scalar.isFinite (Candidate.mk d.scale d.rotation).turn = true := by
    rcases h.compares with hturn | ⟨b, hlt⟩
    · exact hturn
    · exact Extended.isFinite_of_lt hxyz hlt
  obtain ⟨hturn', hz'⟩ := hfinite' hturn
  obtain ⟨hx', hy'⟩ := hfinite hturn'
  obtain ⟨x, hx⟩ := Extended.isFinite_iff.mp (Extended.isFinite_of_isFinite_abs hx')
  obtain ⟨y, hy⟩ := Extended.isFinite_iff.mp (Extended.isFinite_of_isFinite_abs hy')
  obtain ⟨z, hz⟩ := Extended.isFinite_iff.mp (Extended.isFinite_of_isFinite_abs hz')
  refine ⟨max (max |x| |y|) |z|, ?_, fun axis => ?_⟩
  · simp only [Candidate.turn, hx, hy, hz, Extended.abs_finite, Extended.greatest_finite]
  · cases axis
    · exact ⟨x, hx, (le_max_left _ _).trans (le_max_left _ _)⟩
    · exact ⟨y, hy, (le_max_right _ _).trans (le_max_left _ _)⟩
    · exact ⟨z, hz, le_max_right _ _⟩

theorem isFinite_angle (h : Split m t d) (axis : Axis) :
    Scalar.isFinite (d.rotation.get axis) = true := by
  obtain ⟨w, -, hangles⟩ := h.exists_turn
  obtain ⟨a, ha, -⟩ := hangles axis
  exact Extended.isFinite_iff.mpr ⟨a, ha⟩

/-- Columns of unequal lengths are split only if no angle exceeds the tolerance. -/
theorem angles_le (h : Split m t d) (ht : Scalar.ofInt 0 ≤ t)
    (huneven : ∃ axis, t + t * Scalar.abs m.linear.columnNorms.x <
      Scalar.abs (m.linear.columnNorms.get axis - m.linear.columnNorms.x)) (axis : Axis) :
    Scalar.abs (d.rotation.get axis) ≤ t := by
  have hturn : ¬ t < (Candidate.mk d.scale d.rotation).turn := by
    refine h.turns_little.resolve_left fun huniform => ?_
    obtain ⟨axis, hgt⟩ := huneven
    have hnear := Vec3.all_eq_true_iff.mp huniform axis
    obtain ⟨u, n, rfl, hnonneg, -, hn, -⟩ := h.exists_norm ht axis
    obtain ⟨-, n₀, -, -, -, hn₀, -⟩ := h.exists_norm ht .x
    have hn₀ : m.linear.columnNorms.x = finite n₀ := hn₀
    rw [hn, hn₀, Extended.finite_sub, Extended.abs_finite, Extended.abs_finite,
      Extended.finite_mul, Extended.finite_add, Extended.lt_finite_iff] at hgt
    rw [hn, hn₀, Extended.near_finite_iff] at hnear
    rcases hnear with hle | rfl
    · exact absurd hle (not_le.mpr hgt)
    · rw [sub_self, abs_zero] at hgt
      exact absurd hgt (not_lt.mpr (add_nonneg hnonneg (mul_nonneg hnonneg (abs_nonneg _))))
  obtain ⟨w, hw, hangles⟩ := h.exists_turn
  obtain ⟨a, ha, hle⟩ := hangles axis
  obtain ⟨u, -, rfl, -⟩ := h.exists_norm ht axis
  rw [hw, Extended.lt_finite_iff, not_lt] at hturn
  rw [ha, Extended.abs_finite, Extended.le_finite_iff]
  exact hle.trans hturn

end Split

/-- **A split is sound.** Whatever the functions of angles are, the parts that a matrix is split
into describe it to within the tolerance. -/
theorem describes_of_ofMatrix? (ht : Scalar.ofInt 0 ≤ t) (h : ofMatrix? m t = some d) :
    Describes m t d := by
  have hsplit := split_of_ofMatrix? h
  obtain ⟨hbottom, hcorner⟩ := Extended.isAffine_iff.mp hsplit.isAffine
  obtain ⟨hmatrix, hpivoted⟩ := Extended.pivoted_eq_affine (hsplit.isFinite_scale ht)
    (hsplit.isFinite_rotation ht) hsplit.isFinite_shift
  have hrebuilds := hsplit.rebuilds ht
  have hzero : d.toPivotMap.pivot = .replicate (finite 0) :=
    congrArg Vec3.replicate Extended.ofInt_zero
  have hmap : d.toPivotMap.matrixWith (Euler.toMatrix .zyx d.rotation) =
      .affine ((Euler.toMatrix .zyx d.rotation).scaleColumns d.scale) d.shift := by
    rw [PivotMap.matrixWith, hzero]
    exact hpivoted
  refine ⟨hbottom, hcorner, ?_, hsplit.shift_eq, fun axis => ?_, ?_, ?_, fun o ho => ?_,
    hsplit.angles_le ht⟩
  · intro row hrow a ha
    exact List.all_eq_true.mp hsplit.isFinite a (List.mem_flatten.mpr ⟨row, hrow, ha⟩)
  · obtain ⟨u, n, rfl, -, hlt, hn, habs⟩ := hsplit.exists_norm ht axis
    rw [habs, hn]
    exact ⟨rfl, Extended.lt_finite_iff.mpr hlt⟩
  · refine ⟨_, toMatrix?_eq_ok hsplit.isFinite_angle, ?_⟩
    rw [toMatrix, hmatrix]
    exact hrebuilds
  · refine ⟨_, toMatrix?_toPivotMap hsplit.isFinite_angle, ?_⟩
    rw [hmap]
    exact hrebuilds
  · have hm : (m.isAffine && m.isFinite) = true := by
      rw [hsplit.isAffine, hsplit.isFinite]
      rfl
    have haffine : (d.toPivotMap.matrixWith (Euler.toMatrix .zyx d.rotation)).isAffine = true := by
      rw [hmap]
      exact Extended.isAffine_iff.mpr ⟨rfl, rfl⟩
    refine ⟨_, Resampler.ofSplit?_eq_ok ho hm h hsplit.isFinite_angle haffine, ?_⟩
    rw [Resampler.ofParts, hmap]
    exact hrebuilds

section Reflection

open QuarterTurns

/-- A reflection that scales the axes differently is split. -/
theorem describes_of_ofMatrix?_of_reflection :
    let m : Matrix4 (Extended ℚ) :=
      Matrix4.map finite (.affine ⟨⟨2, 0, 0⟩, ⟨0, 3, 0⟩, ⟨0, 0, -1⟩⟩ ⟨5, -4, 1 / 2⟩)
    let t : Extended ℚ := finite (1 / 1000)
    Scalar.ofInt 0 ≤ t ∧ ∃ d, ofMatrix? m t = some d ∧ Describes m t d := by
  intro m t
  have ht : Scalar.ofInt 0 ≤ t := by decide +kernel
  have hsome : (ofMatrix? m t).isSome = true := by decide +kernel
  obtain ⟨d, hd⟩ := Option.isSome_iff_exists.mp hsome
  exact ⟨ht, d, hd, describes_of_ofMatrix? ht hd⟩

end Reflection

end SparseVoxel.AffineParts

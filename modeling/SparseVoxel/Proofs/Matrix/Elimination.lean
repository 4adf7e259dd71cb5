import SparseVoxel.Proofs.Matrix.Three
import SparseVoxel.Matrix.Elimination

/-!
# Elimination in exact arithmetic

Every equation that elimination makes from a matrix holds of it (`Equation.Holds`): its left side
is its right side times the matrix. Exchanges and subtractions keep this, and they keep the
determinant of the left sides up to the sign that is counted (`Ordered.Reduces`). As a pivot is the
largest entry of its column, the left sides end up triangular even where a pivot is zero
(`eliminated_upper`), so that `Matrix3.det` is the determinant (`det_eq`); where that is not zero,
`Matrix3.inverse` is an inverse on both sides.
-/

namespace SparseVoxel.Matrix3

/-! ## Determinants of systems -/

namespace Ordered

variable {K : Type} [Field K]

/-- The matrix of the left sides. -/
def lefts (s : Ordered K) : Matrix3 K :=
  ⟨⟨s.first.left, s.second.left, s.third.left⟩⟩

/-- The determinant of the left sides, negated after an odd number of exchanges. -/
def signedDet (s : Ordered K) : K :=
  if s.odd then -s.lefts.toMatrix.det else s.lefts.toMatrix.det

theorem det_lefts (s : Ordered K) : s.lefts.toMatrix.det =
    s.first.left.x * s.second.left.y * s.third.left.z -
      s.first.left.x * s.second.left.z * s.third.left.y -
      s.first.left.y * s.second.left.x * s.third.left.z +
      s.first.left.y * s.second.left.z * s.third.left.x +
      s.first.left.z * s.second.left.x * s.third.left.y -
      s.first.left.z * s.second.left.y * s.third.left.x := by
  simp [Matrix.det_fin_three, toMatrix, lefts]

/-- An exchange negates the determinant, and it is counted. -/
theorem signedDet_exchange {s s' : Ordered K} (hodd : s'.odd = !s.odd)
    (hdet : s'.lefts.toMatrix.det = -s.lefts.toMatrix.det) : s'.signedDet = s.signedDet := by
  unfold signedDet
  rw [hodd, hdet]
  cases s.odd with
  | true => rfl
  | false => exact neg_neg _

end Ordered

/-! ## Equations -/

variable {K : Type} [Field K] [LinearOrder K] [FloorRing K]

namespace Equation

/-- The left side of an equation is the right side times the matrix. -/
def Holds (m : Matrix3 K) (e : Equation K) : Prop :=
  e.left = m.columns.map fun column => e.right.dot column

theorem Holds.subtract {m : Matrix3 K} {e p : Equation K} (he : e.Holds m) (hp : p.Holds m)
    (factor : K) : (e.subtract factor p).Holds m := by
  have hcolumn : ∀ column : Vec3 K, e.right.dot column - factor * p.right.dot column =
      (e.right.zipWith (fun a b => a - factor * b) p.right).dot column := by
    intro column
    simp only [Affine.dot_eq, Vec3.zipWith]
    ring
  unfold Holds at he hp
  unfold Holds Equation.subtract
  rw [he, hp]
  exact Vec3.ext (hcolumn _) (hcolumn _) (hcolumn _)

theorem Holds.eliminate {m : Matrix3 K} {e p : Equation K} (he : e.Holds m) (hp : p.Holds m)
    (column : Axis) : (p.eliminate column e).Holds m :=
  he.subtract hp _

/-- An equation divided by a number on both sides. -/
theorem Holds.divide {m : Matrix3 K} {e : Equation K} (h : e.Holds m) (d : K) :
    Equation.Holds m ⟨e.left.map (· / d), e.right.map (· / d)⟩ := by
  have hcolumn : ∀ column : Vec3 K, e.right.dot column / d = (e.right.map (· / d)).dot column := by
    intro column
    simp only [Affine.dot_eq, Vec3.map]
    ring
  unfold Holds at h
  unfold Holds
  rw [h]
  exact Vec3.ext (hcolumn _) (hcolumn _) (hcolumn _)

theorem get_left_eliminate (p e : Equation K) (column axis : Axis) :
    (p.eliminate column e).left.get axis =
      e.left.get axis - e.left.get column / p.left.get column * p.left.get axis :=
  Vec3.get_zipWith _ _ _ _

end Equation

/-! ## Systems -/

namespace Ordered

/-- A system that exchanges and subtractions can have led to. -/
structure Reduces (m : Matrix3 K) (s : Ordered K) : Prop where
  first : s.first.Holds m
  second : s.second.Holds m
  third : s.third.Holds m
  signedDet_eq : s.signedDet = m.toMatrix.det

variable {m : Matrix3 K} {s : Ordered K}

theorem Reduces.pivotFirst (h : s.Reduces m) : s.pivotFirst.Reduces m := by
  obtain ⟨a, b, c, odd⟩ := s
  obtain ⟨ha, hb, hc, hdet⟩ := h
  have hfirst : Reduces m ⟨b, a, c, !odd⟩ := by
    refine ⟨hb, ha, hc, (signedDet_exchange rfl ?_).trans hdet⟩
    simp only [det_lefts]
    ring
  have hthird : Reduces m ⟨c, b, a, !odd⟩ := by
    refine ⟨hc, hb, ha, (signedDet_exchange rfl ?_).trans hdet⟩
    simp only [det_lefts]
    ring
  unfold Ordered.pivotFirst
  simp only
  split
  · split
    · exact hthird
    · exact hfirst
  · split
    · exact hthird
    · exact ⟨ha, hb, hc, hdet⟩

theorem Reduces.pivotSecond (h : s.Reduces m) : s.pivotSecond.Reduces m := by
  obtain ⟨a, b, c, odd⟩ := s
  obtain ⟨ha, hb, hc, hdet⟩ := h
  unfold Ordered.pivotSecond
  simp only
  split
  · refine ⟨ha, hc, hb, (signedDet_exchange rfl ?_).trans hdet⟩
    simp only [det_lefts]
    ring
  · exact ⟨ha, hb, hc, hdet⟩

theorem signedDet_eliminateFirst (s : Ordered K) : s.eliminateFirst.signedDet = s.signedDet := by
  have hdet : s.eliminateFirst.lefts.toMatrix.det = s.lefts.toMatrix.det := by
    simp only [det_lefts, eliminateFirst, Equation.eliminate, Equation.subtract, Vec3.zipWith]
    ring
  rw [signedDet, signedDet, hdet]
  rfl

theorem signedDet_eliminateSecond (s : Ordered K) : s.eliminateSecond.signedDet = s.signedDet := by
  have hdet : s.eliminateSecond.lefts.toMatrix.det = s.lefts.toMatrix.det := by
    simp only [det_lefts, eliminateSecond, Equation.eliminate, Equation.subtract, Vec3.zipWith]
    ring
  rw [signedDet, signedDet, hdet]
  rfl

theorem Reduces.eliminateFirst (h : s.Reduces m) : s.eliminateFirst.Reduces m :=
  ⟨h.first, h.second.eliminate h.first _, h.third.eliminate h.first _,
    (signedDet_eliminateFirst s).trans h.signedDet_eq⟩

theorem Reduces.eliminateSecond (h : s.Reduces m) : s.eliminateSecond.Reduces m :=
  ⟨h.first, h.second, h.third.eliminate h.second _,
    (signedDet_eliminateSecond s).trans h.signedDet_eq⟩

end Ordered

theorem reduces_eliminated (m : Matrix3 K) : m.eliminated.Reduces m := by
  have hone : m = one.mul m := (one_mul m).symm
  have hstart : Ordered.Reduces m ⟨⟨m.rows.x, (one : Matrix3 K).rows.x⟩,
      ⟨m.rows.y, (one : Matrix3 K).rows.y⟩, ⟨m.rows.z, (one : Matrix3 K).rows.z⟩, false⟩ :=
    ⟨congrArg (fun a : Matrix3 K => a.rows.x) hone, congrArg (fun a : Matrix3 K => a.rows.y) hone,
      congrArg (fun a : Matrix3 K => a.rows.z) hone, rfl⟩
  exact hstart.pivotFirst.eliminateFirst.pivotSecond.eliminateSecond

/-! ## Pivots -/

variable [IsStrictOrderedRing K]

theorem Equation.abs_le_of_not_beats {e other : Equation K} (column : Axis)
    (h : ¬ e.beats column other = true) : |e.left.get column| ≤ |other.left.get column| := by
  unfold Equation.beats at h
  rw [decide_eq_true_eq, Exact.abs_eq, Exact.abs_eq] at h
  exact not_lt.mp h

theorem Equation.abs_lt_of_beats {e other : Equation K} (column : Axis)
    (h : e.beats column other = true) : |other.left.get column| < |e.left.get column| := by
  unfold Equation.beats at h
  rwa [decide_eq_true_eq, Exact.abs_eq, Exact.abs_eq] at h

/-- A pivot with the largest entry of its column removes the unknown, even if that entry is
zero. -/
theorem Equation.get_left_eliminate_self {p e : Equation K} (column : Axis)
    (h : |e.left.get column| ≤ |p.left.get column|) :
    (p.eliminate column e).left.get column = 0 := by
  rw [get_left_eliminate]
  by_cases hp : p.left.get column = 0
  · rw [hp, abs_zero] at h
    rw [abs_eq_zero.mp (le_antisymm h (abs_nonneg _)), hp]
    simp
  · rw [div_mul_cancel₀ _ hp, sub_self]

theorem Ordered.pivotFirst_largest (s : Ordered K) :
    |s.pivotFirst.second.left.x| ≤ |s.pivotFirst.first.left.x| ∧
      |s.pivotFirst.third.left.x| ≤ |s.pivotFirst.first.left.x| := by
  obtain ⟨a, b, c, odd⟩ := s
  unfold pivotFirst
  simp only
  split
  · next hb =>
    have hab : |a.left.x| < |b.left.x| := Equation.abs_lt_of_beats .x hb
    split
    · next hc =>
      have hbc : |b.left.x| < |c.left.x| := Equation.abs_lt_of_beats .x hc
      exact ⟨hbc.le, (hab.trans hbc).le⟩
    · next hc => exact ⟨hab.le, Equation.abs_le_of_not_beats .x hc⟩
  · next hb =>
    have hba : |b.left.x| ≤ |a.left.x| := Equation.abs_le_of_not_beats .x hb
    split
    · next hc =>
      have hac : |a.left.x| < |c.left.x| := Equation.abs_lt_of_beats .x hc
      exact ⟨hba.trans hac.le, hac.le⟩
    · next hc => exact ⟨hba, Equation.abs_le_of_not_beats .x hc⟩

theorem Ordered.pivotSecond_largest (s : Ordered K) :
    |s.pivotSecond.third.left.y| ≤ |s.pivotSecond.second.left.y| := by
  obtain ⟨a, b, c, odd⟩ := s
  unfold pivotSecond
  simp only
  split
  · next hc => exact (Equation.abs_lt_of_beats .y hc).le
  · next hc => exact Equation.abs_le_of_not_beats .y hc

/-- The left sides end up triangular. -/
theorem eliminated_upper (m : Matrix3 K) : m.eliminated.second.left.x = 0 ∧
    m.eliminated.third.left.x = 0 ∧ m.eliminated.third.left.y = 0 := by
  unfold eliminated
  simp only
  generalize (Ordered.mk (⟨m.rows.x, (one : Matrix3 K).rows.x⟩ : Equation K)
    ⟨m.rows.y, (one : Matrix3 K).rows.y⟩ ⟨m.rows.z, (one : Matrix3 K).rows.z⟩ false) = s
  obtain ⟨hsecond, hthird⟩ := s.pivotFirst_largest
  have hfirst : s.pivotFirst.eliminateFirst.second.left.x = 0 ∧
      s.pivotFirst.eliminateFirst.third.left.x = 0 :=
    ⟨Equation.get_left_eliminate_self .x hsecond,
      Equation.get_left_eliminate_self .x hthird⟩
  generalize s.pivotFirst.eliminateFirst = s₁ at hfirst
  have hkept : s₁.pivotSecond.second.left.x = 0 ∧ s₁.pivotSecond.third.left.x = 0 := by
    obtain ⟨a, b, c, odd⟩ := s₁
    unfold Ordered.pivotSecond
    simp only
    split
    · exact ⟨hfirst.2, hfirst.1⟩
    · exact hfirst
  have hlargest := s₁.pivotSecond_largest
  generalize s₁.pivotSecond = s₂ at hkept hlargest
  refine ⟨hkept.1, ?_, Equation.get_left_eliminate_self .y hlargest⟩
  refine (Equation.get_left_eliminate s₂.second s₂.third .y .x).trans ?_
  show s₂.third.left.x - _ * s₂.second.left.x = 0
  rw [hkept.1, hkept.2]
  simp

/-! ## Determinant and inverse -/

/-- Elimination computes the determinant. -/
theorem det_eq (m : Matrix3 K) : m.det = m.toMatrix.det := by
  obtain ⟨hyx, hzx, hzy⟩ := eliminated_upper m
  have hproduct : m.eliminated.lefts.toMatrix.det = Scalar.product
      [m.eliminated.first.left.x, m.eliminated.second.left.y, m.eliminated.third.left.z] := by
    show _ = List.prod _
    rw [Ordered.det_lefts, hyx, hzx, hzy]
    simp
    ring
  rw [← (reduces_eliminated m).signedDet_eq, Ordered.signedDet, hproduct]
  rfl

theorem pivots_ne_zero {m : Matrix3 K} (h : m.det ≠ 0) : m.eliminated.first.left.x ≠ 0 ∧
    m.eliminated.second.left.y ≠ 0 ∧ m.eliminated.third.left.z ≠ 0 := by
  have hproduct : List.prod [m.eliminated.first.left.x, m.eliminated.second.left.y,
      m.eliminated.third.left.z] ≠ 0 := by
    intro hzero
    apply h
    show (if m.eliminated.odd then -List.prod _ else List.prod _) = 0
    rw [hzero]
    simp
  simp only [List.prod_cons, List.prod_nil, mul_ne_zero_iff] at hproduct
  exact ⟨hproduct.1, hproduct.2.1, hproduct.2.2.1⟩

theorem inverse_mul {m : Matrix3 K} (h : m.det ≠ 0) : m.inverse.mul m = one := by
  obtain ⟨hyx, hzx, hzy⟩ := eliminated_upper m
  obtain ⟨hfirst, hsecond, hthird⟩ := pivots_ne_zero h
  obtain ⟨hx, hy, hz, -⟩ := reduces_eliminated m
  -- the rows of the inverse, solved for from the last one to the first
  have hz' := hz.divide m.eliminated.third.left.z
  have hz'' : Equation.Holds m ⟨⟨0, 0, 1⟩, m.inverse.rows.z⟩ := by
    refine Eq.trans ?_ hz'
    ext <;> simp [Vec3.map, hzx, hzy, hthird]
  have hy' := (hy.subtract hz'' m.eliminated.second.left.z).divide m.eliminated.second.left.y
  have hy'' : Equation.Holds m ⟨⟨0, 1, 0⟩, m.inverse.rows.y⟩ := by
    refine Eq.trans ?_ hy'
    ext <;> simp [Equation.subtract, Vec3.map, Vec3.zipWith, hyx, hsecond]
  have hx' := ((hx.subtract hz'' m.eliminated.first.left.z).subtract hy''
    m.eliminated.first.left.y).divide m.eliminated.first.left.x
  have hx'' : Equation.Holds m ⟨⟨1, 0, 0⟩, m.inverse.rows.x⟩ := by
    refine Eq.trans ?_ hx'
    ext <;> simp [Equation.subtract, Vec3.map, Vec3.zipWith, hfirst]
  have hone : (one : Matrix3 K) = ⟨⟨⟨1, 0, 0⟩, ⟨0, 1, 0⟩, ⟨0, 0, 1⟩⟩⟩ := by
    simp [one, diagonal, Vec3.replicate, Exact.zero_eq, Exact.one_eq]
  rw [hone]
  exact Matrix3.ext (Vec3.ext hx''.symm hy''.symm hz''.symm)

theorem mul_inverse {m : Matrix3 K} (h : m.det ≠ 0) : m.mul m.inverse = one :=
  mul_eq_one_symm (inverse_mul h)

end SparseVoxel.Matrix3

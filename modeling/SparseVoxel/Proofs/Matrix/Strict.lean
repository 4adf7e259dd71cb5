import SparseVoxel.Matrix.Four
import SparseVoxel.Proofs.Scalar.Strict
import SparseVoxel.Rotation

/-!
# Finite entries of factors

Every entry of every factor enters some entry of a product, so over strict scalars a product of
finite entries has factors of finite entries (`Matrix3.IsFinite.of_mul`), and a rotation with finite
entries has finite angles (`Euler.isFinite_of_toMatrix`). In the same way every entry of a matrix
enters the pivots of elimination, so a matrix whose determinant is finite and not negligible has
finite entries (`Matrix4.isFinite_of_isRegular`). The determinant is a product of a list, and
`StrictProduct` says what is needed of that.
-/

namespace SparseVoxel

variable {K : Type} [Scalar K]

/-- All three entries are finite. -/
def Vec3.IsFinite (v : Vec3 K) : Prop :=
  ∀ axis, Scalar.isFinite (v.get axis) = true

/-- All nine entries are finite. -/
def Matrix3.IsFinite (m : Matrix3 K) : Prop :=
  ∀ i j, Scalar.isFinite (m.entry i j) = true

theorem Matrix3.isFinite_iff_columns {m : Matrix3 K} :
    m.IsFinite ↔ ∀ axis, (m.columns.get axis).IsFinite := by
  constructor
  · intro h j i
    rw [get_columns]
    exact h i j
  · intro h i j
    rw [← get_columns]
    exact h j i

/-- A matrix is finite if each of its entries is. -/
theorem Matrix4.isFinite_entries {m : Matrix4 K} (h : m.isFinite = true) :
    m.linear.IsFinite ∧ m.offset.IsFinite := by
  simp only [isFinite, toRows, Vec3.toList, List.flatten_cons, List.flatten_nil,
    List.cons_append, List.nil_append, List.all_cons, List.all_nil, Bool.and_eq_true] at h
  constructor
  · intro i j
    cases i <;> cases j <;> simp only [Matrix3.entry, Vec3.get, h]
  · intro axis
    cases axis <;> simp only [Vec3.get, h]

/-! ## Products -/

section Products

variable [StrictScalar K]

open StrictScalar

/-- All entries enter a sum of products. -/
theorem Vec3.isFinite_of_dot {v w : Vec3 K} (h : Scalar.isFinite (v.dot w) = true) :
    v.IsFinite ∧ w.IsFinite := by
  obtain ⟨hxy, hz⟩ := of_add h
  obtain ⟨hx, hy⟩ := of_add hxy
  have hx := of_mul (of_add hx).2
  have hy := of_mul hy
  have hz := of_mul hz
  exact ⟨Axis.forall_iff.mpr ⟨hx.1, hy.1, hz.1⟩, Axis.forall_iff.mpr ⟨hx.2, hy.2, hz.2⟩⟩

namespace Matrix3

theorem IsFinite.of_mul {a b : Matrix3 K} (h : (a.mul b).IsFinite) : a.IsFinite ∧ b.IsFinite := by
  have hentry : ∀ i j, (a.mul b).entry i j = (a.rows.get i).dot (b.columns.get j) := by
    intro i j
    cases i <;> cases j <;> rfl
  have hdot : ∀ i j, (a.rows.get i).IsFinite ∧ (b.columns.get j).IsFinite := fun i j =>
    Vec3.isFinite_of_dot (hentry i j ▸ h i j)
  exact ⟨fun i => (hdot i .x).1, isFinite_iff_columns.mpr fun j => (hdot .x j).2⟩

theorem IsFinite.of_scaleColumns {m : Matrix3 K} {s : Vec3 K} (h : (m.scaleColumns s).IsFinite) :
    m.IsFinite ∧ s.IsFinite := by
  have hentry : ∀ i j, Scalar.isFinite (m.entry i j) = true ∧ Scalar.isFinite (s.get j) = true := by
    intro i j
    refine StrictScalar.of_mul ?_
    rw [← entry_scaleColumns]
    exact h i j
  exact ⟨fun i j => (hentry i j).1, fun j => (hentry .x j).2⟩

/-- All factors of a product over axes have finite entries if the product has. -/
theorem IsFinite.of_foldl {f : Axis → Matrix3 K} {axes : List Axis} {m : Matrix3 K}
    (h : (axes.foldl (fun r axis => r.mul (f axis)) m).IsFinite) :
    m.IsFinite ∧ ∀ axis ∈ axes, (f axis).IsFinite := by
  induction axes generalizing m with
  | nil => exact ⟨h, nofun⟩
  | cons axis axes ih =>
    obtain ⟨hproduct, haxes⟩ := ih h
    obtain ⟨hm, haxis⟩ := of_mul hproduct
    exact ⟨hm, List.forall_mem_cons.mpr ⟨haxis, haxes⟩⟩

end Matrix3

theorem Euler.isFinite_of_toMatrix [Trigonometry K] [StrictTrigonometry K] {order : RotationOrder}
    {angles : Vec3 K} (h : (toMatrix order angles).IsFinite) : angles.IsFinite := by
  intro axis
  have haxis : axis ∈ order.axes := by cases order <;> cases axis <;> decide
  have hrotation := (Matrix3.IsFinite.of_foldl h).2 axis haxis
  refine StrictTrigonometry.of_sin ?_
  -- the sine stands in the rows of the other two axes
  cases axis
  · exact hrotation .z .y
  · exact hrotation .x .z
  · exact hrotation .y .x

end Products

/-! ## Determinants -/

/-- Scalars of which a product that is finite, and not with either sign too small to be a
determinant, has finite factors. -/
class StrictProduct (K : Type) [Scalar K] : Prop where
  of_product : ∀ {as : List K}, Scalar.isFinite (Scalar.product as) = true →
    (Scalar.abs (Scalar.product as) < Matrix4.singularBound →
      ¬ Scalar.abs (-Scalar.product as) < Matrix4.singularBound) →
    ∀ a ∈ as, Scalar.isFinite a = true

namespace Matrix3

theorem Ordered.of_pivotFirst {P : Equation K → Prop} {s : Ordered K}
    (h : P s.pivotFirst.first ∧ P s.pivotFirst.second ∧ P s.pivotFirst.third) :
    P s.first ∧ P s.second ∧ P s.third := by
  obtain ⟨a, b, c, odd⟩ := s
  unfold Ordered.pivotFirst at h
  simp only at h
  split at h
  · split at h
    · exact ⟨h.2.2, h.2.1, h.1⟩
    · exact ⟨h.2.1, h.1, h.2.2⟩
  · split at h
    · exact ⟨h.2.2, h.2.1, h.1⟩
    · exact h

theorem Ordered.first_pivotSecond (s : Ordered K) : s.pivotSecond.first = s.first := by
  obtain ⟨a, b, c, odd⟩ := s
  unfold Ordered.pivotSecond
  simp only
  split
  · rfl
  · rfl

theorem Ordered.of_pivotSecond {P : Equation K → Prop} {s : Ordered K}
    (h : P s.pivotSecond.second ∧ P s.pivotSecond.third) : P s.second ∧ P s.third := by
  obtain ⟨a, b, c, odd⟩ := s
  unfold Ordered.pivotSecond at h
  simp only at h
  split at h
  · exact h.symm
  · exact h

variable [StrictScalar K]

open StrictScalar

/-- What enters the result of an elimination. -/
theorem Equation.isFinite_of_eliminate {pivot e : Equation K} {column : Axis} (axis : Axis)
    (h : Scalar.isFinite ((pivot.eliminate column e).left.get axis) = true) :
    Scalar.isFinite (e.left.get axis) = true ∧ Scalar.isFinite (e.left.get column) = true ∧
      Scalar.isFinite (pivot.left.get axis) = true := by
  have hentry : (pivot.eliminate column e).left.get axis =
      e.left.get axis - e.left.get column / pivot.left.get column * pivot.left.get axis :=
    Vec3.get_zipWith _ _ _ _
  rw [hentry] at h
  obtain ⟨haxis, hmultiple⟩ := of_sub h
  obtain ⟨hfactor, hpivot⟩ := of_mul hmultiple
  exact ⟨haxis, of_div hfactor, hpivot⟩

/-- Every entry of a matrix enters one of the pivots. -/
theorem isFinite_of_pivots {m : Matrix3 K}
    (hx : Scalar.isFinite m.eliminated.first.left.x = true)
    (hy : Scalar.isFinite m.eliminated.second.left.y = true)
    (hz : Scalar.isFinite m.eliminated.third.left.z = true) : m.IsFinite := by
  let start : Ordered K := ⟨⟨m.rows.x, one.rows.x⟩, ⟨m.rows.y, one.rows.y⟩,
    ⟨m.rows.z, one.rows.z⟩, false⟩
  let s := start.pivotFirst
  have hfirst : m.eliminated.first = s.first := Ordered.first_pivotSecond s.eliminateFirst
  rw [hfirst] at hx
  -- the last elimination leaves the entries of the second and the third equation on two axes
  have hlast := Equation.isFinite_of_eliminate .z hz
  have hlower := Ordered.of_pivotSecond (s := s.eliminateFirst)
    (P := fun e => Scalar.isFinite (e.left.get .y) = true ∧ Scalar.isFinite (e.left.get .z) = true)
    ⟨⟨hy, hlast.2.2⟩, hlast.2.1, hlast.1⟩
  -- the first one leaves all that is left of the three equations
  have hsecond := Equation.isFinite_of_eliminate .y hlower.1.1
  have hsecond' := Equation.isFinite_of_eliminate .z hlower.1.2
  have hthird := Equation.isFinite_of_eliminate .y hlower.2.1
  have hthird' := Equation.isFinite_of_eliminate .z hlower.2.2
  exact Axis.forall_iff.mpr <| Ordered.of_pivotFirst (s := start) (P := fun e => e.left.IsFinite)
    ⟨Axis.forall_iff.mpr ⟨hx, hsecond.2.2, hsecond'.2.2⟩,
      Axis.forall_iff.mpr ⟨hsecond.2.1, hsecond.1, hsecond'.1⟩,
      Axis.forall_iff.mpr ⟨hthird.2.1, hthird.1, hthird'.1⟩⟩

end Matrix3

/-- A matrix whose determinant is finite and not negligible has finite entries. -/
theorem Matrix4.isFinite_of_isRegular [StrictScalar K] [StrictProduct K] {m : Matrix4 K}
    (h : m.isRegular = true) : m.linear.IsFinite := by
  unfold isRegular Matrix3.det at h
  simp only [Bool.and_eq_true, Bool.not_eq_true', decide_eq_false_iff_not] at h
  obtain ⟨hfinite, hsize⟩ := h
  have hproduct : Scalar.isFinite (Scalar.product [m.linear.eliminated.first.left.x,
      m.linear.eliminated.second.left.y, m.linear.eliminated.third.left.z]) = true := by
    split at hfinite
    · rwa [StrictScalar.isFinite_neg] at hfinite
    · exact hfinite
  have hfactors := StrictProduct.of_product hproduct (by
    split at hsize
    · exact fun _ => hsize
    · exact fun hlt => absurd hlt hsize)
  exact Matrix3.isFinite_of_pivots (hfactors _ (by simp)) (hfactors _ (by simp))
    (hfactors _ (by simp))

section Instances

variable {K : Type} [Field K] [LinearOrder K] [FloorRing K]

instance : StrictProduct K where
  of_product _ _ _ _ := rfl

/-- A finite product of a list has finite factors. -/
theorem Extended.isFinite_of_foldl_mul {as : List (Extended K)} {a : Extended K}
    (h : Scalar.isFinite (as.foldl Extended.mul a) = true) :
    Scalar.isFinite a = true ∧ ∀ b ∈ as, Scalar.isFinite b = true := by
  induction as generalizing a with
  | nil => exact ⟨h, nofun⟩
  | cons b as ih =>
    obtain ⟨hproduct, has⟩ := ih h
    obtain ⟨ha, hb⟩ := Extended.mul_eq_finite hproduct
    exact ⟨ha, List.forall_mem_cons.mpr ⟨hb, has⟩⟩

instance : StrictProduct (Extended K) where
  of_product h _ := (Extended.isFinite_of_foldl_mul h).2

end Instances

end SparseVoxel

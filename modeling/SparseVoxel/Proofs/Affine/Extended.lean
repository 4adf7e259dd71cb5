import SparseVoxel.Proofs.Affine.PivotMap
import SparseVoxel.Proofs.Scalar.Extended

/-!
# Affine matrices with infinities

Products of matrices of finite values are those of the numbers, so finite factors compose to the
rotation with scaled columns whichever way they are composed (`pivoted_eq_affine`). That a matrix is
affine is decided exactly (`isAffine_iff`).
-/

namespace SparseVoxel

/-- Each entry replaced by its image. -/
def Matrix4.map {K L : Type} (f : K → L) (m : Matrix4 K) : Matrix4 L :=
  ⟨m.linear.map f, m.offset.map f, m.bottom.map f, f m.corner⟩

namespace Extended

variable {K : Type} [Field K] [LinearOrder K] [FloorRing K]

theorem finite_value {a : Extended K} (h : Scalar.isFinite a = true) : finite a.value = a := by
  obtain ⟨b, rfl⟩ := isFinite_iff.mp h
  rfl

theorem map_finite_value {v : Vec3 (Extended K)}
    (h : ∀ axis, Scalar.isFinite (v.get axis) = true) : (v.map value).map finite = v :=
  Vec3.ext_get fun axis => by
    rw [Vec3.get_map, Vec3.get_map, finite_value (h axis)]

theorem map_finite_value_matrix {m : Matrix3 (Extended K)}
    (h : ∀ i j, Scalar.isFinite (m.entry i j) = true) : (m.map value).map finite = m :=
  Matrix3.ext_entry fun i j => by
    show (((m.rows.map (Vec3.map value)).map (Vec3.map finite)).get i).get j =
      (m.rows.get i).get j
    rw [Vec3.get_map, Vec3.get_map, Vec3.get_map, Vec3.get_map]
    exact finite_value (h i j)

theorem mul_finite (a b : Matrix4 K) :
    (a.map finite).mul (b.map finite) = (a.mul b).map finite :=
  rfl

theorem one_finite : (Matrix4.one : Matrix4 (Extended K)) = Matrix4.map finite .one :=
  rfl

theorem scaling_finite (s : Vec3 K) :
    Matrix4.scaling (s.map finite) = (Matrix4.scaling s).map finite :=
  rfl

theorem shift_finite (t : Vec3 K) : Matrix4.shift (t.map finite) = (Matrix4.shift t).map finite :=
  rfl

theorem ofLinear_finite (r : Matrix3 K) :
    Matrix4.ofLinear (r.map finite) = (Matrix4.ofLinear r).map finite :=
  rfl

/-- The factors of a pivoted map are calculated with as numbers are. -/
theorem pivoted_finite (pivot : Option (Vec3 K)) (s : Vec3 K) (r : Matrix3 K) (t : Vec3 K) :
    Affine.pivoted (pivot.map (Vec3.map finite)) (some (s.map finite)) (some (r.map finite))
      (some (t.map finite)) = (Affine.pivoted pivot (some s) (some r) (some t)).map finite := by
  cases pivot with
  | none =>
    simp only [Affine.pivoted, Option.map_none, one_finite, scaling_finite, shift_finite,
      ofLinear_finite, mul_finite]
  | some p =>
    have hneg : -(p.map finite) = (-p).map finite := rfl
    simp only [Affine.pivoted, Option.map_some, one_finite, scaling_finite, shift_finite,
      ofLinear_finite, mul_finite, hneg]

/-- Finite factors multiply to the rotation with scaled columns, with or without a pivot at the
origin. -/
theorem pivoted_eq_affine {s t : Vec3 (Extended K)} {r : Matrix3 (Extended K)}
    (hs : ∀ axis, Scalar.isFinite (s.get axis) = true)
    (hr : ∀ i j, Scalar.isFinite (r.entry i j) = true)
    (ht : ∀ axis, Scalar.isFinite (t.get axis) = true) :
    Affine.pivoted none (some s) (some r) (some t) = .affine (r.scaleColumns s) t ∧
      Affine.pivoted (some (.replicate (finite 0))) (some s) (some r) (some t) =
        .affine (r.scaleColumns s) t := by
  rw [← map_finite_value hs, ← map_finite_value_matrix hr, ← map_finite_value ht]
  constructor
  · refine (pivoted_finite none _ _ _).trans ?_
    rw [Affine.pivoted_none]
    rfl
  · refine (pivoted_finite (some (.replicate 0)) _ _ _).trans ?_
    rw [Affine.pivoted_origin, Affine.pivoted_none]
    rfl

theorem isAffine_iff {m : Matrix4 (Extended K)} : m.isAffine = true ↔
    m.bottom = .replicate (Scalar.ofInt 0) ∧ m.corner = Scalar.ofInt 1 := by
  rw [Matrix4.isAffine_iff_beq]
  constructor
  · rintro ⟨hbottom, hcorner⟩
    exact ⟨Vec3.ext (eq_of_beq (hbottom .x)) (eq_of_beq (hbottom .y)) (eq_of_beq (hbottom .z)),
      eq_of_beq hcorner⟩
  · rintro ⟨hbottom, hcorner⟩
    rw [hbottom, hcorner]
    exact ⟨fun axis => by cases axis <;> exact decide_eq_true rfl, decide_eq_true rfl⟩

end Extended

end SparseVoxel

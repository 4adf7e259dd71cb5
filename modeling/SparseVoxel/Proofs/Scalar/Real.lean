import Mathlib.Analysis.SpecialFunctions.Complex.Arg
import Mathlib.Tactic.LinearCombination
import SparseVoxel.Proofs.Rotation

/-!
# Real angles and lengths

Over the real numbers lengths, sine and cosine are those of analysis, and the angle of a point is
its argument as a complex number. The cosine and the sine of that angle are the abscissa and the
ordinate over the distance from the origin (`cos_atan2`, `sin_atan2`). The angle lies between minus
one and one half turn (`abs_atan2_le_pi`), and a point at a distance in the direction of an angle of
that range has this angle (`atan2_mul_sin_cos`).
-/

namespace SparseVoxel

noncomputable instance : Trigonometry ℝ where
  pi := Real.pi
  sqrt := Real.sqrt
  sin := Real.sin
  cos := Real.cos
  atan2 y x := Complex.arg ⟨x, y⟩
  hypot x y := Real.sqrt (x * x + y * y)

namespace RealAngle

theorem cos_eq (a : ℝ) : Trigonometry.cos a = Real.cos a :=
  rfl

theorem sin_eq (a : ℝ) : Trigonometry.sin a = Real.sin a :=
  rfl

theorem pythagorean : Pythagorean ℝ := by
  intro a
  rw [cos_eq, sin_eq, ← sq, ← sq]
  exact Real.cos_sq_add_sin_sq a

theorem hypot_mul_self (x y : ℝ) :
    Trigonometry.hypot x y * Trigonometry.hypot x y = x * x + y * y :=
  Real.mul_self_sqrt (add_nonneg (mul_self_nonneg x) (mul_self_nonneg y))

section Point

variable {x y h : ℝ}

theorem norm_point (hh : 0 ≤ h) (hsq : x * x + y * y = h * h) : ‖(⟨x, y⟩ : ℂ)‖ = h := by
  rw [Complex.norm_def, Complex.normSq_mk, hsq, Real.sqrt_mul_self hh]

/-- The cosine of the angle of a point at a distance from the origin. -/
theorem cos_atan2 (hh : 0 < h) (hsq : x * x + y * y = h * h) :
    Real.cos (Trigonometry.atan2 y x) = x / h := by
  have hnorm := norm_point hh.le hsq
  have hne : (⟨x, y⟩ : ℂ) ≠ 0 := norm_ne_zero_iff.mp (hnorm ▸ hh.ne')
  exact (Complex.cos_arg hne).trans (by rw [hnorm])

/-- The sine of the angle of a point at a distance from the origin. -/
theorem sin_atan2 (hh : 0 < h) (hsq : x * x + y * y = h * h) :
    Real.sin (Trigonometry.atan2 y x) = y / h := by
  have hnorm := norm_point hh.le hsq
  exact (Complex.sin_arg _).trans (by rw [hnorm])

end Point

theorem abs_atan2_le_pi (y x : ℝ) : |Trigonometry.atan2 y x| ≤ Real.pi :=
  Complex.abs_arg_le_pi _

/-- The angle of a point that is not on the left is at most a quarter turn. -/
theorem abs_atan2_le_pi_div_two (y : ℝ) {x : ℝ} (hx : 0 ≤ x) :
    |Trigonometry.atan2 y x| ≤ Real.pi / 2 :=
  Complex.abs_arg_le_pi_div_two_iff.mpr hx

/-- A point at a distance in the direction of an angle has this angle. -/
theorem atan2_mul_sin_cos {r θ : ℝ} (hr : 0 < r) (hθ : θ ∈ Set.Ioc (-Real.pi) Real.pi) :
    Trigonometry.atan2 (r * Real.sin θ) (r * Real.cos θ) = θ := by
  have hpoint : (⟨r * Real.cos θ, r * Real.sin θ⟩ : ℂ) =
      r * (Complex.cos θ + Complex.sin θ * Complex.I) := by
    rw [← Complex.ofReal_cos, ← Complex.ofReal_sin, Complex.mk_eq_add_mul_I]
    push_cast
    ring
  exact (congrArg Complex.arg hpoint).trans (Complex.arg_mul_cos_add_sin_mul_I hr hθ)

theorem hypot_nonneg (x y : ℝ) : 0 ≤ Trigonometry.hypot x y :=
  Real.sqrt_nonneg _

/-- A point in the direction of an angle is at its distance from the origin. -/
theorem hypot_mul_cos_sin {r : ℝ} (hr : 0 ≤ r) (θ : ℝ) :
    Trigonometry.hypot (Real.cos θ * r) (Real.sin θ * r) = r := by
  refine (mul_self_inj (hypot_nonneg _ _) hr).mp ?_
  rw [hypot_mul_self]
  linear_combination r * r * Real.cos_sq_add_sin_sq θ

theorem atan2_zero_one : Trigonometry.atan2 0 1 = (0 : ℝ) :=
  Complex.arg_one

end RealAngle

end SparseVoxel

import Mathlib.Data.Rat.Floor
import SparseVoxel.Proofs.Rotation

/-!
# Rational angles in quarter turns

With angles counted in quarter turns, sine, cosine and the angle of a point on an axis are rational,
and so are the square roots of the squares of rational numbers. Between these a value is rounded
down to one of them, which keeps the squares of sine and cosine adding up to one (`pythagorean`).
-/

namespace SparseVoxel.QuarterTurns

/-- The greatest natural whose square is not above a natural. -/
def root (n : Nat) : Nat :=
  (List.range n).countP fun r => (r + 1) * (r + 1) ≤ n

/-- The square root of a square of a rational number. -/
def sqrt (a : ℚ) : ℚ :=
  root a.num.natAbs / root a.den

/-- Angles in quarter turns. -/
scoped instance : Trigonometry ℚ where
  pi := 2
  sqrt := sqrt
  sin a := if ⌊a⌋ % 4 = 1 then 1 else if ⌊a⌋ % 4 = 3 then -1 else 0
  cos a := if ⌊a⌋ % 4 = 0 then 1 else if ⌊a⌋ % 4 = 2 then -1 else 0
  atan2 y x :=
    if |y| ≤ |x| then if 0 ≤ x then 0 else 2
    else if 0 ≤ y then 1 else -1
  hypot x y := sqrt (x * x + y * y)

theorem pythagorean : Pythagorean ℚ := by
  intro a
  have hmod : ⌊a⌋ % 4 = 0 ∨ ⌊a⌋ % 4 = 1 ∨ ⌊a⌋ % 4 = 2 ∨ ⌊a⌋ % 4 = 3 := by omega
  simp only [Trigonometry.cos, Trigonometry.sin]
  rcases hmod with h | h | h | h <;> simp [h]

end SparseVoxel.QuarterTurns

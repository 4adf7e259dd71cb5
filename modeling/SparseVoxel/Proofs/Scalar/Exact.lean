import Mathlib.Algebra.Order.Round
import Mathlib.Tactic.FieldSimp
import Mathlib.Tactic.Linarith
import Mathlib.Tactic.Positivity
import Mathlib.Tactic.Ring
import SparseVoxel.Proofs.Scalar.Ordered

/-!
# Exact arithmetic

Every ordered field with a floor is a type of scalars whose arithmetic is exact: nothing is rounded
but by the floor and the ceiling, every value is finite, and every floor is an index. The rational
numbers are an example. The lemmas say what the defined constants and functions of `Scalar` are
in such a field.
-/

namespace SparseVoxel

variable {K : Type} [Field K] [LinearOrder K] [FloorRing K]

instance (priority := low) Scalar.ofField : Scalar K where
  decLt := inferInstance
  decLe := inferInstance
  ofInt n := n
  isNaN _ := false
  isFinite _ := true
  floor := Int.floor
  ceil := Int.ceil
  index? a := some ⌊a⌋
  product := List.prod
  text _ := ""

namespace Exact

theorem ofInt_eq (n : Int) : (Scalar.ofInt n : K) = n :=
  rfl

theorem zero_eq : @OfNat.ofNat K 0 (Scalar.instOfNat 0) = 0 :=
  Int.cast_zero

theorem one_eq : @OfNat.ofNat K 1 (Scalar.instOfNat 1) = 1 :=
  Int.cast_one

theorem half_eq : (Scalar.half : K) = 1 / 2 := by
  show (((1 : Nat) : Int) : K) / (((2 : Nat) : Int) : K) = 1 / 2
  norm_num

theorem least_eq (a b : K) : Scalar.least a b = min a b := by
  unfold Scalar.least
  split
  · next h => exact (min_eq_left h).symm
  · next h =>
    have hba : b ≤ a := le_of_not_ge h
    rw [if_pos hba, min_eq_right hba]

theorem greatest_eq (a b : K) : Scalar.greatest a b = max a b := by
  unfold Scalar.greatest
  split
  · next h => exact (max_eq_left h).symm
  · next h =>
    have hab : a ≤ b := le_of_not_ge h
    rw [if_pos hab, max_eq_right hab]

theorem tenth_eq (n : Nat) : (Scalar.tenth n : K) = 1 / 10 ^ n := by
  have hcast : ((Decimal.tenTo n : Int) : K) = 10 ^ n := by
    show (((10 ^ n : Nat) : Int) : K) = 10 ^ n
    push_cast
    rfl
  rw [Scalar.tenth, one_eq, ofInt_eq, hcast]

end Exact

instance : SteadyScalar K where
  mul_sub_self {a} _ := by
    rw [Exact.ofInt_eq, Exact.ofInt_eq, sub_self, mul_zero, mul_zero]
  ceil_le {a} _ := Int.ceil_le_floor_add_one a

variable [IsStrictOrderedRing K]

theorem Exact.abs_eq (a : K) : Scalar.abs a = |a| := by
  unfold Scalar.abs
  rw [Exact.zero_eq]
  split
  · next h => exact (abs_of_neg h).symm
  · next h => exact (abs_of_nonneg (le_of_not_gt h)).symm

/-- Without a tolerance near values are equal. -/
theorem Exact.near_zero_iff {a b : K} : Scalar.near (Scalar.ofInt 0) 0 a b = true ↔ a = b := by
  rw [Scalar.near_eq_true_iff, Exact.abs_eq, Exact.ofInt_eq, Int.cast_zero, zero_mul, add_zero,
    beq_iff_eq, or_iff_right_iff_imp]
  rintro ⟨hle, -⟩
  exact sub_eq_zero.mp (abs_nonpos_iff.mp hle)

theorem Exact.zero_lt_tenth (n : Nat) : 0 < (Scalar.tenth n : K) := by
  rw [Exact.tenth_eq]
  positivity

instance : OrderedScalar K where
  le_trans := fun hab hbc => le_trans (α := K) hab hbc
  le_self_left := fun _ => le_refl (α := K) _
  le_self_right := fun _ => le_refl (α := K) _
  le_self_of_isFinite := fun _ => le_refl (α := K) _
  not_le_add := fun hab hba => absurd (le_of_not_ge hab) hba
  floor_le_ceil := fun _ _ hab => (Int.floor_mono hab).trans (Int.floor_le_ceil _)

end SparseVoxel

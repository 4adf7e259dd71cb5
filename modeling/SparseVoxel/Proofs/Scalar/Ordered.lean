import SparseVoxel.Proofs.Lists
import SparseVoxel.Scalar.Basic

/-!
# Scalars with an order

Binary64 numbers do not satisfy the laws of a ring, but they compare as numbers do as long as
none of them is no number. `OrderedScalar` has the laws of comparison that the bounds of an image
rest on: a value is comparable with something only if it is comparable with itself, and what is
comparable with nothing stays so under `least` and `greatest`. So a finite least and a finite
greatest value of a list are in order, and so are their floor and ceiling (`floor_least_le`).
`SteadyScalar` has what is needed to see that the image of a single point is a single point.
-/

namespace SparseVoxel

/-- Scalars whose comparison is the order of numbers wherever it holds at all. -/
class OrderedScalar (K : Type) [Scalar K] : Prop where
  le_trans : ∀ {a b c : K}, a ≤ b → b ≤ c → a ≤ c
  le_self_left : ∀ {a b : K}, a ≤ b → a ≤ a
  le_self_right : ∀ {a b : K}, a ≤ b → b ≤ b
  /-- A finite value is a number. -/
  le_self_of_isFinite : ∀ {a : K}, Scalar.isFinite a = true → a ≤ a
  /-- The sum of values that do not compare is no number. -/
  not_le_add : ∀ {a b : K}, ¬a ≤ b → ¬b ≤ a → ¬a + b ≤ a + b
  floor_le_ceil : ∀ {a b : K}, Scalar.isFinite a = true → Scalar.isFinite b = true → a ≤ b →
    Scalar.floor a ≤ Scalar.ceil b

/-- Scalars of which a finite one less itself is nothing, whether it is left out or taken, and has
its ceiling next to its floor. -/
class SteadyScalar (K : Type) [Scalar K] : Prop where
  mul_sub_self : ∀ {a : K}, Scalar.isFinite a = true →
    Scalar.ofInt 0 * (a - a) = Scalar.ofInt 1 * (a - a)
  ceil_le : ∀ {a : K}, Scalar.isFinite a = true → Scalar.ceil a ≤ Scalar.floor a + 1

namespace Scalar

variable {K : Type} [Scalar K] [OrderedScalar K]

open OrderedScalar

/-- The lesser of two values is not above the first one, if it is a number. -/
theorem least_le {a b : K} (h : least a b ≤ least a b) : least a b ≤ a := by
  unfold least at h ⊢
  split
  · next hab => exact le_self_left hab
  · next hab =>
    split
    · next hba => exact hba
    · next hba =>
      rw [if_neg hab, if_neg hba] at h
      exact absurd h (not_le_add hab hba)

/-- The greater of two values is not below the first one, if it is a number. -/
theorem le_greatest {a b : K} (h : greatest a b ≤ greatest a b) : a ≤ greatest a b := by
  unfold greatest at h ⊢
  split
  · next hba => exact le_self_right hba
  · next hba =>
    split
    · next hab => exact hab
    · next hab =>
      rw [if_neg hba, if_neg hab] at h
      exact absurd h (not_le_add hab hba)

theorem foldl_least_le {a : K} (as : List K) (h : as.foldl least a ≤ as.foldl least a) :
    as.foldl least a ≤ a := by
  induction as generalizing a with
  | nil => exact h
  | cons b as ih =>
    have hrest := ih h
    exact le_trans hrest (least_le (le_self_right hrest))

theorem le_foldl_greatest {a : K} (as : List K)
    (h : as.foldl greatest a ≤ as.foldl greatest a) : a ≤ as.foldl greatest a := by
  induction as generalizing a with
  | nil => exact h
  | cons b as ih =>
    have hrest := ih h
    exact le_trans (le_greatest (le_self_left hrest)) hrest

/-- Rounding the least and the greatest of values outward leaves them in order. -/
theorem floor_least_le {a : K} (as : List K) (hlo : isFinite (as.foldl least a) = true)
    (hhi : isFinite (as.foldl greatest a) = true) :
    floor (as.foldl least a) ≤ ceil (as.foldl greatest a) :=
  floor_le_ceil hlo hhi (le_trans (foldl_least_le as (le_self_of_isFinite hlo))
    (le_foldl_greatest as (le_self_of_isFinite hhi)))

/-- The least and the greatest of equal values, if the least one is finite. -/
theorem foldl_of_isFinite {a : K} {as : List K} (h : ∀ b ∈ as, b = a)
    (hfinite : isFinite (as.foldl least a) = true) :
    as.foldl least a = a ∧ as.foldl greatest a = a := by
  have ha : a ≤ a := le_self_right (foldl_least_le as (le_self_of_isFinite hfinite))
  have hleast : least a a = a := if_pos ha
  have hgreatest : greatest a a = a := if_pos ha
  exact ⟨foldl_of_forall_eq hleast h, foldl_of_forall_eq hgreatest h⟩

end Scalar

end SparseVoxel

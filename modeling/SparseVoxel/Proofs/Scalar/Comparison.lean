import Mathlib.Data.Prod.Lex
import Mathlib.Order.Basic

/-!
# The order of floating-point numbers

Unpacked floating-point numbers compare as their signs, exponents and mantissas do, in this order.
`rank` makes that a single linear order in which a number stands by one triple of integers, and
what is no number has none. `compare_eq` says that comparison is comparison of ranks; the laws of
`≤` and `==` for binary64 and binary32 numbers follow from it.
-/

namespace SparseVoxel

namespace Unpacked

open Float.Model (UnpackedFloat)
open Float.Model.UnpackedFloat (Sign)

/-- Where a number stands among all numbers: by its sign and whether it is infinite, then by its
exponent, then by its mantissa. -/
abbrev Rank := ℤ ×ₗ ℤ ×ₗ ℤ

/-- The rank of a number, if it is one. -/
def rank : UnpackedFloat → Option Rank
  | .notANumber => none
  | .infinity .negative => some (toLex (-2, toLex (0, 0)))
  | .finite .negative m e _ => some (toLex (-1, toLex (-e, -(m : ℤ))))
  | .zero _ => some (toLex (0, toLex (0, 0)))
  | .finite .positive m e _ => some (toLex (1, toLex (e, (m : ℤ))))
  | .infinity .positive => some (toLex (2, toLex (0, 0)))

theorem compare_neg (a b : ℤ) : compare (-a) (-b) = (compare a b).swap := by
  rcases lt_trichotomy a b with h | rfl | h
  · rw [compare_lt_iff_lt.mpr h, compare_gt_iff_gt.mpr (Int.neg_lt_neg h)]
    rfl
  · rw [compare_eq_iff_eq.mpr rfl, compare_eq_iff_eq.mpr rfl]
    rfl
  · rw [compare_gt_iff_gt.mpr h, compare_lt_iff_lt.mpr (Int.neg_lt_neg h)]
    rfl

theorem compare_natCast (m n : ℕ) : compare (m : ℤ) n = compare m n := by
  rcases lt_trichotomy m n with h | rfl | h
  · rw [compare_lt_iff_lt.mpr h, compare_lt_iff_lt.mpr (Int.ofNat_lt.mpr h)]
  · rw [compare_eq_iff_eq.mpr rfl, compare_eq_iff_eq.mpr rfl]
  · rw [compare_gt_iff_gt.mpr h, compare_gt_iff_gt.mpr (Int.ofNat_lt.mpr h)]

/-- Numbers compare as their ranks do, and what is no number compares with nothing. -/
theorem compare_eq (a b : UnpackedFloat) :
    a.compare b = (rank a).bind fun x => (rank b).map fun y => compare x y := by
  cases a with
  | notANumber => rfl
  | infinity s =>
    cases s <;> cases b with
    | notANumber => rfl
    | infinity s' => cases s' <;> rfl
    | zero s' => rfl
    | finite s' m e h => cases s' <;> rfl
  | zero s =>
    cases b with
    | notANumber => rfl
    | infinity s' => cases s' <;> rfl
    | zero s' => rfl
    | finite s' m e h => cases s' <;> rfl
  | finite s m e h =>
    cases b with
    | notANumber => cases s <;> rfl
    | infinity s' => cases s <;> cases s' <;> rfl
    | zero s' => cases s <;> rfl
    | finite s' m' e' h' =>
      cases s <;> cases s'
      · show some _ = some ((compare (-e) (-e')).then (compare (-(m : ℤ)) (-(m' : ℤ))))
        rw [compare_neg, compare_neg, compare_natCast, Ordering.swap_then]
      · rfl
      · rfl
      · show some _ = some ((compare e e').then (compare (m : ℤ) m'))
        rw [compare_natCast]

theorem le_iff {a b : UnpackedFloat} :
    a.le b = true ↔ ∃ x y, rank a = some x ∧ rank b = some y ∧ x ≤ y := by
  unfold UnpackedFloat.le
  rw [compare_eq]
  cases rank a with
  | none => simp
  | some x =>
    cases rank b with
    | none => simp
    | some y =>
      show (compare x y).isLE = true ↔ _
      rw [Ordering.isLE_iff_ne_gt, ← ne_eq, compare_le_iff_le]
      simp

theorem beq_iff {a b : UnpackedFloat} :
    a.beq b = true ↔ ∃ x, rank a = some x ∧ rank b = some x := by
  unfold UnpackedFloat.beq
  rw [compare_eq]
  cases rank a with
  | none => simp
  | some x =>
    cases rank b with
    | none => simp
    | some y =>
      show ((some (compare x y) == some Ordering.eq) = true) ↔ _
      rw [beq_iff_eq, Option.some.injEq, compare_eq_iff_eq]
      simp [eq_comm]

theorem beq_symm {a b : UnpackedFloat} (h : a.beq b = true) : b.beq a = true := by
  obtain ⟨x, ha, hb⟩ := beq_iff.mp h
  exact beq_iff.mpr ⟨x, hb, ha⟩

theorem beq_trans {a b c : UnpackedFloat} (hab : a.beq b = true) (hbc : b.beq c = true) :
    a.beq c = true := by
  obtain ⟨x, ha, hb⟩ := beq_iff.mp hab
  obtain ⟨y, hb', hc⟩ := beq_iff.mp hbc
  cases Option.some.inj (hb.symm.trans hb')
  exact beq_iff.mpr ⟨x, ha, hc⟩

theorem exists_rank_of_isFinite {a : UnpackedFloat} (h : a.isFinite = true) :
    ∃ x, rank a = some x := by
  cases a with
  | notANumber => cases h
  | infinity s => cases h
  | zero s => exact ⟨_, rfl⟩
  | finite s m e hm => cases s <;> exact ⟨_, rfl⟩

end Unpacked

/-! ## Equality and order of binary64 and binary32 numbers -/

theorem Float.le_iff {a b : Float} :
    a ≤ b ↔ ∃ x y, Unpacked.rank a.toModel.unpack = some x ∧
      Unpacked.rank b.toModel.unpack = some y ∧ x ≤ y := by
  rw [← Unpacked.le_iff]
  show decide (a.toModel.le b.toModel = true) = true ↔ _
  rw [decide_eq_true_iff]
  rfl

theorem Float.le_trans {a b c : Float} (hab : a ≤ b) (hbc : b ≤ c) : a ≤ c := by
  obtain ⟨x, y, ha, hb, hxy⟩ := Float.le_iff.mp hab
  obtain ⟨y', z, hb', hc, hyz⟩ := Float.le_iff.mp hbc
  cases Option.some.inj (hb.symm.trans hb')
  exact Float.le_iff.mpr ⟨x, z, ha, hc, hxy.trans hyz⟩

/-- Of two values that do not compare one is no number. -/
theorem Float.rank_eq_none_of_not_le {a b : Float} (hab : ¬ a ≤ b) (hba : ¬ b ≤ a) :
    Unpacked.rank a.toModel.unpack = none ∨ Unpacked.rank b.toModel.unpack = none := by
  cases ha : Unpacked.rank a.toModel.unpack with
  | none => exact Or.inl rfl
  | some x =>
    cases hb : Unpacked.rank b.toModel.unpack with
    | none => exact Or.inr rfl
    | some y =>
      rcases le_total x y with hxy | hyx
      · exact absurd (Float.le_iff.mpr ⟨x, y, ha, hb, hxy⟩) hab
      · exact absurd (Float.le_iff.mpr ⟨y, x, hb, ha, hyx⟩) hba

instance partialEquivBEqFloat : PartialEquivBEq Float where
  symm h := Unpacked.beq_symm h
  trans h h' := Unpacked.beq_trans h h'

instance partialEquivBEqFloat32 : PartialEquivBEq Float32 where
  symm h := Unpacked.beq_symm h
  trans h h' := Unpacked.beq_trans h h'

end SparseVoxel

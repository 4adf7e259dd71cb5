import Mathlib
import SparseVoxel.Proofs.Scalar.Comparison
import SparseVoxel.Value.Kind

/-!
# Tolerances and zeros of different sign

Two zeros of different sign are equal as numbers. Addition, subtraction and multiplication tell
them apart at most by the sign of a zero that they give (`Unpacked.Alike`), so whether a value is
within a tolerance of another depends on the two values as numbers only. `LawfulTolerance` is that
law, and every kind of values has it.
-/

namespace SparseVoxel

namespace Unpacked

open Float.Model (UnpackedFloat Format)
open Float.Model.UnpackedFloat

/-! ## Numbers with one rank -/

/-- Two numbers are alike when they are the same, up to the sign of zero. -/
def Alike (a b : UnpackedFloat) : Prop :=
  rank a = rank b

/-- Numbers that are alike but not the same are zeros. -/
theorem Alike.eq_or_zero {a b : UnpackedFloat} (h : Alike a b) :
    a = b ∨ ∃ s s', a = .zero s ∧ b = .zero s' := by
  cases a with
  | notANumber =>
    cases b with
    | notANumber => exact Or.inl rfl
    | infinity s => cases s <;> simp [Alike, rank] at h
    | zero s => simp [Alike, rank] at h
    | finite s m e hm => cases s <;> simp [Alike, rank] at h
  | infinity s =>
    cases b with
    | notANumber => cases s <;> simp [Alike, rank] at h
    | infinity s' => cases s <;> cases s' <;> simp [Alike, rank] at h ⊢
    | zero s' => cases s <;> simp [Alike, rank] at h
    | finite s' m e hm => cases s <;> cases s' <;> simp [Alike, rank] at h
  | zero s =>
    cases b with
    | notANumber => simp [Alike, rank] at h
    | infinity s' => cases s' <;> simp [Alike, rank] at h
    | zero s' => exact Or.inr ⟨s, s', rfl, rfl⟩
    | finite s' m e hm => cases s' <;> simp [Alike, rank] at h
  | finite s m e hm =>
    cases b with
    | notANumber => cases s <;> simp [Alike, rank] at h
    | infinity s' => cases s <;> cases s' <;> simp [Alike, rank] at h
    | zero s' => cases s <;> simp [Alike, rank] at h
    | finite s' m' e' hm' =>
      cases s <;> cases s' <;> simp [Alike, rank] at h ⊢
      · obtain ⟨hexponent, hmantissa⟩ := h
        exact ⟨by omega, hexponent⟩
      · obtain ⟨hexponent, hmantissa⟩ := h
        exact ⟨by omega, hexponent⟩

/-- An operation that does not tell zeros apart takes numbers that are alike to numbers that are
alike. -/
theorem Alike.congr₂ {op : UnpackedFloat → UnpackedFloat → UnpackedFloat}
    (hleft : ∀ s s' b, Alike (op (.zero s) b) (op (.zero s') b))
    (hright : ∀ s s' a, Alike (op a (.zero s)) (op a (.zero s'))) {a a' b b' : UnpackedFloat}
    (ha : Alike a a') (hb : Alike b b') : Alike (op a b) (op a' b') := by
  have hfirst : Alike (op a b) (op a' b) := by
    rcases ha.eq_or_zero with rfl | ⟨s, s', rfl, rfl⟩
    · rfl
    · exact hleft s s' b
  refine hfirst.trans ?_
  rcases hb.eq_or_zero with rfl | ⟨s, s', rfl, rfl⟩
  · rfl
  · exact hright s s' a'

theorem Alike.add {spec : Format} {a a' b b' : UnpackedFloat} (ha : Alike a a')
    (hb : Alike b b') : Alike (UnpackedFloat.add spec a b) (UnpackedFloat.add spec a' b') := by
  refine congr₂ (fun s s' b => ?_) (fun s s' a => ?_) ha hb
  · cases b with
    | zero u => cases s <;> cases s' <;> cases u <;> rfl
    | _ => rfl
  · cases a with
    | zero u => cases s <;> cases s' <;> cases u <;> rfl
    | _ => rfl

theorem Alike.sub {spec : Format} {a a' b b' : UnpackedFloat} (ha : Alike a a')
    (hb : Alike b b') : Alike (UnpackedFloat.sub spec a b) (UnpackedFloat.sub spec a' b') := by
  refine congr₂ (fun s s' b => ?_) (fun s s' a => ?_) ha hb
  · cases b with
    | zero u => cases s <;> cases s' <;> cases u <;> rfl
    | _ => rfl
  · cases a with
    | zero u => cases s <;> cases s' <;> cases u <;> rfl
    | _ => rfl

theorem Alike.mul {spec : Format} {a a' b b' : UnpackedFloat} (ha : Alike a a')
    (hb : Alike b b') : Alike (UnpackedFloat.mul spec a b) (UnpackedFloat.mul spec a' b') := by
  refine congr₂ (fun s s' b => ?_) (fun s s' a => ?_) ha hb
  · cases b <;> rfl
  · cases a <;> rfl

theorem Alike.neg {a a' : UnpackedFloat} (ha : Alike a a') : Alike a.neg a'.neg := by
  rcases ha.eq_or_zero with rfl | ⟨s, s', rfl, rfl⟩
  · rfl
  · rfl

theorem Alike.abs {a a' : UnpackedFloat} (ha : Alike a a') : Alike a.abs a'.abs := by
  rcases ha.eq_or_zero with rfl | ⟨s, s', rfl, rfl⟩
  · rfl
  · rfl

theorem Alike.isFinite_eq {a a' : UnpackedFloat} (ha : Alike a a') :
    a.isFinite = a'.isFinite := by
  rcases ha.eq_or_zero with rfl | ⟨s, s', rfl, rfl⟩
  · rfl
  · rfl

theorem Alike.compare_eq {a a' b b' : UnpackedFloat} (ha : Alike a a') (hb : Alike b b') :
    a.compare b = a'.compare b' := by
  rw [Unpacked.compare_eq, Unpacked.compare_eq, ha, hb]

theorem Alike.beq_eq {a a' b b' : UnpackedFloat} (ha : Alike a a') (hb : Alike b b') :
    a.beq b = a'.beq b' := by
  unfold UnpackedFloat.beq
  rw [ha.compare_eq hb]

theorem Alike.of_beq {a b : UnpackedFloat} (h : a.beq b = true) : Alike a b := by
  obtain ⟨x, ha, hb⟩ := beq_iff.mp h
  exact ha.trans hb.symm

end Unpacked

open Unpacked (Alike)

/-! ## Binary64 numbers -/

namespace Float

theorem alike_pack {u u' : Float.Model.UnpackedFloat} (h : Alike u u') :
    Alike (Float.Model.pack u).unpack (Float.Model.pack u').unpack := by
  rcases h.eq_or_zero with rfl | ⟨s, s', rfl, rfl⟩
  · rfl
  · cases s <;> cases s' <;> rfl

variable {a a' b b' : Float}

theorem alike_add (ha : Alike a.toModel.unpack a'.toModel.unpack)
    (hb : Alike b.toModel.unpack b'.toModel.unpack) :
    Alike (a + b).toModel.unpack (a' + b').toModel.unpack :=
  alike_pack (ha.add hb)

theorem alike_sub (ha : Alike a.toModel.unpack a'.toModel.unpack)
    (hb : Alike b.toModel.unpack b'.toModel.unpack) :
    Alike (a - b).toModel.unpack (a' - b').toModel.unpack :=
  alike_pack (ha.sub hb)

theorem alike_mul (ha : Alike a.toModel.unpack a'.toModel.unpack)
    (hb : Alike b.toModel.unpack b'.toModel.unpack) :
    Alike (a * b).toModel.unpack (a' * b').toModel.unpack :=
  alike_pack (ha.mul hb)

theorem lt_congr (ha : Alike a.toModel.unpack a'.toModel.unpack)
    (hb : Alike b.toModel.unpack b'.toModel.unpack) : a < b ↔ a' < b' := by
  show (decide ((a.toModel.unpack.compare b.toModel.unpack == some .lt) = true) = true) ↔
    (decide ((a'.toModel.unpack.compare b'.toModel.unpack == some .lt) = true) = true)
  rw [ha.compare_eq hb]

theorem le_congr (ha : Alike a.toModel.unpack a'.toModel.unpack)
    (hb : Alike b.toModel.unpack b'.toModel.unpack) : a ≤ b ↔ a' ≤ b' := by
  rw [le_iff, le_iff, ha, hb]

theorem alike_abs (ha : Alike a.toModel.unpack a'.toModel.unpack) :
    Alike (Scalar.abs a).toModel.unpack (Scalar.abs a').toModel.unpack := by
  show Alike (if a < Scalar.ofInt 0 then -a else a).toModel.unpack
    (if a' < Scalar.ofInt 0 then -a' else a').toModel.unpack
  by_cases h : a < Scalar.ofInt 0
  · rw [if_pos h, if_pos ((lt_congr ha rfl).mp h)]
    exact alike_pack ha.neg
  · rw [if_neg h, if_neg fun h' => h ((lt_congr ha rfl).mpr h')]
    exact ha

theorem near_congr {relative absolute : Float} (ha : Alike a.toModel.unpack a'.toModel.unpack)
    (hb : Alike b.toModel.unpack b'.toModel.unpack) :
    Scalar.near relative absolute a b = Scalar.near relative absolute a' b' := by
  have hle := le_congr (alike_abs (alike_sub ha hb))
    (alike_add (a := absolute) rfl (alike_mul (a := relative) rfl (alike_abs hb)))
  have hfinite : b.isFinite = b'.isFinite := hb.isFinite_eq
  have heq : (a == b) = (a' == b') := ha.beq_eq hb
  show (decide (_ ≤ _) && b.isFinite || a == b) = (decide (_ ≤ _) && b'.isFinite || a' == b')
  rw [decide_eq_decide.mpr hle, hfinite, heq]

end Float

/-! ## Binary32 numbers -/

namespace Float32

theorem alike_pack {u u' : Float.Model.UnpackedFloat} (h : Alike u u') :
    Alike (Float32.Model.pack u).unpack (Float32.Model.pack u').unpack := by
  rcases h.eq_or_zero with rfl | ⟨s, s', rfl, rfl⟩
  · rfl
  · cases s <;> cases s' <;> rfl

variable {a a' b b' : Float32}

theorem alike_sub (ha : Alike a.toModel.unpack a'.toModel.unpack)
    (hb : Alike b.toModel.unpack b'.toModel.unpack) :
    Alike (a - b).toModel.unpack (a' - b').toModel.unpack :=
  alike_pack (ha.sub hb)

theorem alike_abs (ha : Alike a.toModel.unpack a'.toModel.unpack) :
    Alike a.abs.toModel.unpack a'.abs.toModel.unpack :=
  alike_pack ha.abs

theorem le_congr (ha : Alike a.toModel.unpack a'.toModel.unpack)
    (hb : Alike b.toModel.unpack b'.toModel.unpack) : a ≤ b ↔ a' ≤ b' := by
  show (decide ((a.toModel.unpack.compare b.toModel.unpack).any (·.isLE) = true) = true) ↔
    (decide ((a'.toModel.unpack.compare b'.toModel.unpack).any (·.isLE) = true) = true)
  rw [ha.compare_eq hb]

theorem within_congr {tolerance : Float} (ha : Alike a.toModel.unpack a'.toModel.unpack)
    (hb : Alike b.toModel.unpack b'.toModel.unpack) :
    VoxelValue.within tolerance a b = VoxelValue.within tolerance a' b' := by
  have hle := le_congr (b := tolerance.toFloat32) (alike_abs (alike_sub ha hb)) rfl
  have hfinite : b.isFinite = b'.isFinite := hb.isFinite_eq
  have heq : (a == b) = (a' == b') := ha.beq_eq hb
  show (decide (_ ≤ _) && b.isFinite || a == b) = (decide (_ ≤ _) && b'.isFinite || a' == b')
  rw [decide_eq_decide.mpr hle, hfinite, heq]

end Float32

/-! ## The law -/

/-- Whether a value is within a tolerance of another depends on the two as numbers only. -/
class LawfulTolerance (K V : Type) [BEq V] [VoxelValue K V] : Prop where
  within_left {tolerance : K} {a a' : V} (b : V) : (a == a') = true →
    VoxelValue.within tolerance a b = VoxelValue.within tolerance a' b
  within_right {tolerance : K} {b b' : V} (a : V) : (b == b') = true →
    VoxelValue.within tolerance a b = VoxelValue.within tolerance a b'

/-- Where values are equal only when they are the same there is nothing to show. -/
instance {K V : Type} [BEq V] [LawfulBEq V] [VoxelValue K V] : LawfulTolerance K V where
  within_left _ h := by rw [eq_of_beq h]
  within_right _ h := by rw [eq_of_beq h]

instance : LawfulTolerance Float Float where
  within_left _ h := Float.near_congr (.of_beq h) rfl
  within_right _ h := Float.near_congr rfl (.of_beq h)

instance : LawfulTolerance Float Float32 where
  within_left _ h := Float32.within_congr (.of_beq h) rfl
  within_right _ h := Float32.within_congr rfl (.of_beq h)

namespace Vec3

variable {V : Type}

theorem within_eq {K : Type} [VoxelValue K V] (tolerance : K) (a b : Vec3 V) :
    VoxelValue.within tolerance a b = (VoxelValue.within tolerance a.x b.x &&
      VoxelValue.within tolerance a.y b.y && VoxelValue.within tolerance a.z b.z) :=
  rfl

variable [BEq V]

theorem beq_iff {v w : Vec3 V} : (v == w) = true ↔
    (v.x == w.x) = true ∧ (v.y == w.y) = true ∧ (v.z == w.z) = true := by
  show (v.x == w.x && (v.y == w.y && v.z == w.z)) = true ↔ _
  rw [Bool.and_eq_true, Bool.and_eq_true]

instance [PartialEquivBEq V] : PartialEquivBEq (Vec3 V) where
  symm h := by
    rw [beq_iff] at h ⊢
    exact ⟨PartialEquivBEq.symm h.1, PartialEquivBEq.symm h.2.1, PartialEquivBEq.symm h.2.2⟩
  trans h h' := by
    rw [beq_iff] at h h' ⊢
    exact ⟨PartialEquivBEq.trans h.1 h'.1, PartialEquivBEq.trans h.2.1 h'.2.1,
      PartialEquivBEq.trans h.2.2 h'.2.2⟩

instance {K : Type} [VoxelValue K V] [LawfulTolerance K V] : LawfulTolerance K (Vec3 V) where
  within_left _ h := by
    obtain ⟨hx, hy, hz⟩ := beq_iff.mp h
    rw [within_eq, within_eq, LawfulTolerance.within_left _ hx, LawfulTolerance.within_left _ hy,
      LawfulTolerance.within_left _ hz]
  within_right _ h := by
    obtain ⟨hx, hy, hz⟩ := beq_iff.mp h
    rw [within_eq, within_eq, LawfulTolerance.within_right _ hx, LawfulTolerance.within_right _ hy,
      LawfulTolerance.within_right _ hz]

end Vec3

namespace ValueKind

instance : (t : ValueKind) → PartialEquivBEq t.Value
  | .bool => inferInstanceAs (PartialEquivBEq Bool)
  | .int32 => inferInstanceAs (PartialEquivBEq Int32)
  | .int64 => inferInstanceAs (PartialEquivBEq Int64)
  | .single => inferInstanceAs (PartialEquivBEq Float32)
  | .double => inferInstanceAs (PartialEquivBEq Float)
  | .single3 => inferInstanceAs (PartialEquivBEq (Vec3 Float32))
  | .double3 => inferInstanceAs (PartialEquivBEq (Vec3 Float))

instance : (t : ValueKind) → LawfulTolerance Float t.Value
  | .bool => inferInstanceAs (LawfulTolerance Float Bool)
  | .int32 => inferInstanceAs (LawfulTolerance Float Int32)
  | .int64 => inferInstanceAs (LawfulTolerance Float Int64)
  | .single => inferInstanceAs (LawfulTolerance Float Float32)
  | .double => inferInstanceAs (LawfulTolerance Float Float)
  | .single3 => inferInstanceAs (LawfulTolerance Float (Vec3 Float32))
  | .double3 => inferInstanceAs (LawfulTolerance Float (Vec3 Float))

end ValueKind

end SparseVoxel

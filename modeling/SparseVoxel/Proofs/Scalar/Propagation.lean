import Mathlib
import SparseVoxel.Proofs.Scalar.Binary64
import SparseVoxel.Proofs.Scalar.Strict
import SparseVoxel.Proofs.Scalar.Tolerance

/-!
# Infinities in binary64 arithmetic

An infinity, or what is no number, is passed on by every operation of binary64 numbers but by the
division by an infinity. So binary64 numbers are strict scalars, and their finite values are in a
linear order. Results are packed into bits and unpacked again, which makes no number finite
(`isFinite_of_unpack_pack`) and does not depend on the sign (`isFinite_neg`). Zero and one are
neutral among finite numbers, up to the sign of zero.
-/

namespace SparseVoxel

namespace Unpacked

open Float.Model (UnpackedFloat Format)
open Float.Model.UnpackedFloat

variable {spec : Format} {a b : UnpackedFloat}

theorem isFinite_of_add (h : (UnpackedFloat.add spec a b).isFinite = true) :
    a.isFinite = true ∧ b.isFinite = true := by
  cases a with
  | notANumber => cases h
  | infinity s =>
    cases b with
    | infinity s' =>
      have h : (if s == s' then infinity s else .notANumber).isFinite = true := h
      split at h <;> cases h
    | _ => cases h
  | _ => cases b with
    | notANumber => cases h
    | infinity s' => cases h
    | _ => exact ⟨rfl, rfl⟩

theorem apply_neg (s : Sign) (n : Int) : (-s).apply n = -s.apply n := by
  cases s with
  | positive => rfl
  | negative => exact (Int.neg_neg n).symm

theorem sub_eq_add (spec : Format) (a b : UnpackedFloat) :
    UnpackedFloat.sub spec a b = UnpackedFloat.add spec a b.neg := by
  cases a with
  | finite s m e hm =>
    cases b with
    | finite s' m' e' hm' =>
      simp only [UnpackedFloat.sub, UnpackedFloat.add, UnpackedFloat.neg, apply_neg,
        Int.sub_eq_add_neg]
    | _ => rfl
  | _ => cases b <;> rfl

theorem isFinite_of_sub (h : (UnpackedFloat.sub spec a b).isFinite = true) :
    a.isFinite = true ∧ b.isFinite = true := by
  rw [sub_eq_add] at h
  obtain ⟨ha, hb⟩ := isFinite_of_add h
  refine ⟨ha, ?_⟩
  cases b <;> exact hb

theorem isFinite_of_mul (h : (UnpackedFloat.mul spec a b).isFinite = true) :
    a.isFinite = true ∧ b.isFinite = true := by
  cases a with
  | notANumber => cases h
  | infinity s => cases b <;> cases h
  | _ => cases b with
    | notANumber => cases h
    | infinity s' => cases h
    | _ => exact ⟨rfl, rfl⟩

theorem isFinite_of_div (h : (UnpackedFloat.div spec a b).isFinite = true) :
    a.isFinite = true := by
  cases a with
  | notANumber => cases h
  | infinity s => cases b <;> cases h
  | _ => rfl

/-- Zero times a finite number is zero on either side. -/
theorem mul_zero_of_isFinite (spec : Format) (s : Sign) (ha : a.isFinite = true) :
    (∃ s', UnpackedFloat.mul spec (.zero s) a = .zero s') ∧
      ∃ s', UnpackedFloat.mul spec a (.zero s) = .zero s' := by
  cases a with
  | zero s' => exact ⟨⟨_, rfl⟩, _, rfl⟩
  | finite s' m e hm => exact ⟨⟨_, rfl⟩, _, rfl⟩
  | _ => cases ha

/-! ## Bits -/

theorem isFinite_unpack_iff {bits : BitVec spec.numBits} :
    (unpack spec bits).isFinite = true ↔ unpackExponent bits ≠ -1#_ := by
  unfold unpack
  simp only
  split
  · next h =>
    refine iff_of_false ?_ (not_not.mpr h)
    split <;> nofun
  · next h =>
    refine iff_of_true ?_ h
    split
    · split <;> rfl
    · rfl

/-- The bits of the exponent do not depend on the sign. -/
theorem unpackExponent_pack_neg (u : UnpackedFloat) :
    unpackExponent (UnpackedFloat.pack spec u.neg) =
      unpackExponent (UnpackedFloat.pack spec u) := by
  cases u with
  | finite s m e hm =>
    simp only [UnpackedFloat.neg, UnpackedFloat.pack, packedInfinity]
    split
    · rw [unpackExponent_packComponents, unpackExponent_packComponents]
    · split
      · rw [unpackExponent_packComponents, unpackExponent_packComponents]
      · rw [unpackExponent_packComponents, unpackExponent_packComponents]
  | notANumber => rfl
  | infinity s =>
    simp only [UnpackedFloat.neg, UnpackedFloat.pack, packedInfinity, unpackExponent_packComponents]
  | zero s =>
    simp only [UnpackedFloat.neg, UnpackedFloat.pack, packedZero, unpackExponent_packComponents]

end Unpacked

namespace Float

open Float.Model (UnpackedFloat)
open Float.Model.UnpackedFloat
open Unpacked (Alike)

theorem isFinite_of_unpack_pack {u : UnpackedFloat}
    (h : (Float.Model.pack u).unpack.isFinite = true) : u.isFinite = true := by
  cases u with
  | notANumber => exact absurd h (by decide)
  | infinity s => cases s <;> exact absurd h (by decide)
  | zero s => rfl
  | finite s m e hm => rfl

theorem isFinite_neg (a : Float) : (-a).isFinite = a.isFinite := by
  have hneg : (-a).isFinite = true ↔ a.isFinite = true := by
    have hbits := pack_unpack_of_valid a.toModel.valid
    show (unpack .binary64 (UnpackedFloat.pack .binary64 a.toModel.unpack.neg)).isFinite = true ↔
      (unpack .binary64 a.toModel.toBits.toBitVec).isFinite = true
    rw [Unpacked.isFinite_unpack_iff, Unpacked.isFinite_unpack_iff,
      Unpacked.unpackExponent_pack_neg]
    show unpackExponent (UnpackedFloat.pack .binary64 (unpack .binary64 _)) ≠ _ ↔ _
    rw [hbits]
  exact Bool.eq_iff_iff.mpr hneg

theorem lt_iff {a b : Float} :
    a < b ↔ ∃ x y, Unpacked.rank a.toModel.unpack = some x ∧
      Unpacked.rank b.toModel.unpack = some y ∧ x < y := by
  show decide ((a.toModel.unpack.compare b.toModel.unpack == some .lt) = true) = true ↔ _
  rw [decide_eq_true_iff, Unpacked.compare_eq]
  cases Unpacked.rank a.toModel.unpack with
  | none => simp
  | some x =>
    cases Unpacked.rank b.toModel.unpack with
    | none => simp
    | some y => simp [compare_lt_iff_lt]

/-! ## Zeros and ones -/

theorem pack_unpack (a : Float) : Float.Model.pack a.toModel.unpack = a.toModel := by
  have hbits := pack_unpack_of_valid a.toModel.valid
  show (⟨UInt64.ofBitVec (UnpackedFloat.pack .binary64 (unpack .binary64 _)), _⟩ : Float.Model) = _
  simp only [hbits]

theorem beq_iff {a b : Float} : (a == b) = true ↔ ∃ x,
    Unpacked.rank a.toModel.unpack = some x ∧ Unpacked.rank b.toModel.unpack = some x :=
  Unpacked.beq_iff

theorem beq_zero_iff {z : Float} :
    (z == Scalar.ofInt 0) = true ↔ ∃ s, z.toModel.unpack = .zero s := by
  have hzero : (Scalar.ofInt 0 : Float).toModel.unpack = .zero .positive := rfl
  constructor
  · intro h
    have halike := Alike.of_beq h
    rw [hzero] at halike
    rcases halike.eq_or_zero with heq | ⟨s, s', hs, -⟩
    · exact ⟨_, heq⟩
    · exact ⟨s, hs⟩
  · rintro ⟨s, hs⟩
    refine beq_iff.mpr ⟨_, congrArg Unpacked.rank hs, ?_⟩
    rw [hzero]
    rfl

theorem unpack_of_beq_one {a : Float} (h : (a == Scalar.ofInt 1) = true) :
    a.toModel.unpack = (Scalar.ofInt 1 : Float).toModel.unpack := by
  rcases (Alike.of_beq h).eq_or_zero with heq | ⟨s, s', -, hs⟩
  · exact heq
  · exact absurd hs nofun

theorem unpack_pack_zero (s : Sign) : (Float.Model.pack (.zero s)).unpack = .zero s := by
  cases s <;> rfl

/-- Zero of either sign is neutral, up to the sign of zero. -/
theorem alike_zero_add {z : Float} (hz : (z == Scalar.ofInt 0) = true) (a : Float) :
    Alike (z + a).toModel.unpack a.toModel.unpack := by
  obtain ⟨s, hs⟩ := beq_zero_iff.mp hz
  show Alike (Float.Model.pack (UnpackedFloat.add .binary64 z.toModel.unpack
    a.toModel.unpack)).unpack a.toModel.unpack
  have hsum : UnpackedFloat.add .binary64 (.zero s) a.toModel.unpack = a.toModel.unpack ∨
      ∃ s', a.toModel.unpack = .zero s' := by
    cases a.toModel.unpack with
    | zero s' => exact Or.inr ⟨s', rfl⟩
    | _ => exact Or.inl rfl
  rw [hs]
  rcases hsum with hsum | ⟨s', hs'⟩
  · rw [hsum, pack_unpack]
    rfl
  · rw [hs']
    cases s <;> cases s' <;> rfl

end Float

/-! ## The laws -/

instance : StrictScalar Float where
  of_add h := Unpacked.isFinite_of_add (Float.isFinite_of_unpack_pack h)
  of_sub h := Unpacked.isFinite_of_sub (Float.isFinite_of_unpack_pack h)
  of_mul h := Unpacked.isFinite_of_mul (Float.isFinite_of_unpack_pack h)
  of_div h := Unpacked.isFinite_of_div (Float.isFinite_of_unpack_pack h)
  isFinite_neg := Float.isFinite_neg
  of_beq h := (Unpacked.Alike.of_beq h).isFinite_eq

instance : LinearScalar Float where
  le_total ha hb := by
    obtain ⟨x, hx⟩ := Unpacked.exists_rank_of_isFinite ha
    obtain ⟨y, hy⟩ := Unpacked.exists_rank_of_isFinite hb
    exact (le_total x y).imp (fun h => Float.le_iff.mpr ⟨x, y, hx, hy, h⟩)
      fun h => Float.le_iff.mpr ⟨y, x, hy, hx, h⟩
  lt_iff ha hb := by
    obtain ⟨x, hx⟩ := Unpacked.exists_rank_of_isFinite ha
    obtain ⟨y, hy⟩ := Unpacked.exists_rank_of_isFinite hb
    rw [Float.lt_iff, Float.le_iff, hx, hy]
    simp

instance : NeutralScalar Float where
  isFinite_one := rfl
  beq_zero := by decide +kernel
  beq_one := by decide +kernel
  zero_add {z a b} hz hab := by
    obtain ⟨x, ha, hb⟩ := Float.beq_iff.mp hab
    exact Float.beq_iff.mpr ⟨x, (Float.alike_zero_add hz a).trans ha, hb⟩
  zero_mul {z a} hz ha := by
    obtain ⟨s, hs⟩ := Float.beq_zero_iff.mp hz
    obtain ⟨s', hs'⟩ := (Unpacked.mul_zero_of_isFinite .binary64 s ha).1
    refine Float.beq_zero_iff.mpr ⟨s', ?_⟩
    show (Float.Model.pack (.mul .binary64 z.toModel.unpack _)).unpack = _
    rw [hs]
    exact (congrArg (fun u => (Float.Model.pack u).unpack) hs').trans (Float.unpack_pack_zero s')
  mul_zero {z a} ha hz := by
    obtain ⟨s, hs⟩ := Float.beq_zero_iff.mp hz
    obtain ⟨s', hs'⟩ := (Unpacked.mul_zero_of_isFinite .binary64 s ha).2
    refine Float.beq_zero_iff.mpr ⟨s', ?_⟩
    show (Float.Model.pack (.mul .binary64 _ z.toModel.unpack)).unpack = _
    rw [hs]
    exact (congrArg (fun u => (Float.Model.pack u).unpack) hs').trans (Float.unpack_pack_zero s')
  one_mul {a b} ha hb := by
    have hone : ((Scalar.ofInt 1 * Scalar.ofInt 1 : Float) == Scalar.ofInt 1) = true := by
      decide +kernel
    have hproduct : (a * b).toModel = (Scalar.ofInt 1 * Scalar.ofInt 1 : Float).toModel := by
      show Float.Model.pack (.mul .binary64 a.toModel.unpack b.toModel.unpack) = _
      rw [Float.unpack_of_beq_one ha, Float.unpack_of_beq_one hb]
      rfl
    obtain ⟨x, hx, hx'⟩ := Float.beq_iff.mp hone
    rw [← hproduct] at hx
    exact Float.beq_iff.mpr ⟨x, hx, hx'⟩

end SparseVoxel

import SparseVoxel.Proofs.Scalar.Exact
import SparseVoxel.Sampler.Basic

/-!
# Blends in exact arithmetic

Where all readings that carry weight are equal, a blend reproduces them: `trilinear_eq_of_weighted`
leaves out the readings whose weight is zero, and `triquadratic_const` is about equal readings.
`ExactValue` carries this over from scalars to values: the value whose channels are those of `v`
is `v`. It holds of truth values, integers, scalars and triples of such values.
-/

namespace SparseVoxel

variable {K : Type} [Field K] [LinearOrder K] [FloorRing K]

namespace Blend

theorem lerp_zero (a b : K) : lerp a b 0 = a := by
  show a + (b - a) * 0 = a
  rw [mul_zero, add_zero]

theorem lerp_self (a t : K) : lerp a a t = a := by
  show a + (a - a) * t = a
  rw [sub_self, zero_mul, add_zero]

/-- The far end of an interpolation matters only if it carries weight. -/
theorem lerp_eq_of_weighted {a b t c : K} (ha : a = c) (hb : t ≠ 0 → b = c) : lerp a b t = c := by
  by_cases ht : t = 0
  · rw [ht, lerp_zero, ha]
  · rw [ha, hb ht, lerp_self]

/-- A trilinear blend reproduces the reading that all corners with weight share. -/
theorem trilinear_eq_of_weighted {f : Vec3 K} {r : Coord → K} {c : K}
    (h : ∀ o ∈ Sampler.stencil .box, (o.x = 1 → f.x ≠ 0) → (o.y = 1 → f.y ≠ 0) →
      (o.z = 1 → f.z ≠ 0) → r o = c) : trilinear f r = c := by
  have hline : ∀ x ∈ [0, 1], ∀ y ∈ [0, 1], (x = 1 → f.x ≠ 0) → (y = 1 → f.y ≠ 0) →
      lerp (r ⟨x, y, 0⟩) (r ⟨x, y, 1⟩) f.z = c := by
    intro x hx y hy hfx hfy
    have hmem : ∀ z ∈ [0, 1], (⟨x, y, z⟩ : Coord) ∈ Sampler.stencil .box := by
      intro z hz
      simp only [List.mem_cons, List.not_mem_nil, or_false] at hx hy hz
      rcases hx with rfl | rfl <;> rcases hy with rfl | rfl <;> rcases hz with rfl | rfl <;> decide
    refine lerp_eq_of_weighted (h _ (hmem 0 (by simp)) hfx hfy (by simp)) fun hz => ?_
    exact h _ (hmem 1 (by simp)) hfx hfy fun _ => hz
  have hplane : ∀ x ∈ [0, 1], (x = 1 → f.x ≠ 0) →
      lerp (lerp (r ⟨x, 0, 0⟩) (r ⟨x, 0, 1⟩) f.z) (lerp (r ⟨x, 1, 0⟩) (r ⟨x, 1, 1⟩) f.z) f.y =
        c := by
    intro x hx hfx
    refine lerp_eq_of_weighted (hline x hx 0 (by simp) hfx (by simp)) fun hy => ?_
    exact hline x hx 1 (by simp) hfx fun _ => hy
  exact lerp_eq_of_weighted (hplane 0 (by simp) (by simp)) fun hx =>
    hplane 1 (by simp) fun _ => hx

theorem parabola_self (v t : K) : parabola v v v t = v := by
  unfold parabola
  rw [Exact.half_eq]
  ring

theorem triquadratic_const (t : Vec3 K) (c : K) : triquadratic t (fun _ => c) = c := by
  simp only [triquadratic, parabola_self]

end Blend

/-- Values that come back from a blend of equal readings. -/
class ExactValue (K V : Type) [VoxelValue K V] : Prop where
  blend_channel : ∀ v : V, VoxelValue.blend (fun channel : V → K => channel v) = v

section Instances

variable [IsStrictOrderedRing K]

theorem Exact.roundEven_intCast (n : Int) : Scalar.roundEven (n : K) = n := by
  have hfloor : Scalar.floor (n : K) = n := Int.floor_intCast n
  have hrest : (n : K) - Scalar.ofInt n < Scalar.half := by
    rw [Exact.ofInt_eq, Exact.half_eq, sub_self]
    norm_num
  unfold Scalar.roundEven
  simp only [hfloor]
  exact if_pos hrest

instance : ExactValue K Bool where
  blend_channel b := by
    show decide ((Scalar.half : K) ≤ if b then Scalar.ofInt 1 else Scalar.ofInt 0) = b
    rw [Exact.half_eq]
    cases b
    · rw [if_neg Bool.false_ne_true, Exact.ofInt_eq, decide_eq_false_iff_not]
      norm_num
    · rw [if_pos rfl, Exact.ofInt_eq, decide_eq_true_iff]
      norm_num

instance : ExactValue K Int32 where
  blend_channel n := by
    show Int32.ofInt (Word.orLeast Word.bound32 (Scalar.roundEven ((n.toInt : Int) : K))) = n
    rw [Exact.roundEven_intCast, Word.orLeast_int32, Int32.ofInt_toInt]

instance : ExactValue K Int64 where
  blend_channel n := by
    show Int64.ofInt (Word.orLeast Word.bound64 (Scalar.roundEven ((n.toInt : Int) : K))) = n
    rw [Exact.roundEven_intCast, Word.orLeast_int64, Int64.ofInt_toInt]

instance : ExactValue K K where
  blend_channel _ := rfl

instance {V : Type} [VoxelValue K V] [ExactValue K V] : ExactValue K (Vec3 V) where
  blend_channel v := Vec3.ext (ExactValue.blend_channel v.x) (ExactValue.blend_channel v.y)
    (ExactValue.blend_channel v.z)

end Instances

end SparseVoxel

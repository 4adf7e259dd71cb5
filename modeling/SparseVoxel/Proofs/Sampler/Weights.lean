import Mathlib.Algebra.BigOperators.Ring.List
import SparseVoxel.Proofs.Sampler.Uniform

/-!
# Weights of the voxels of a stencil

The blends are written as nested interpolations, and which voxels make a sample active is written
as tests that skip some of them. Both describe the same weights: on each axis the voxel at an offset
from the base voxel has the weight `weight`, and a voxel of the stencil has the product of these
over the axes, `weightAt`. The blend is the sum of the readings times their weights
(`trilinear_eq_blend`, `triquadratic_eq_blend`), and the tests pass exactly the voxels whose weight
is not zero (`touches_iff_weightAt_ne_zero`).
-/

namespace SparseVoxel.Sampler

section Weights

variable {K : Type} [Field K]

/-- The weight, on one axis, of the voxel at an offset from the base voxel, for a position at a
fraction beyond it. -/
def weight (s : Sampler) (t : K) (offset : Int) : K :=
  match s with
  | .point => 1
  | .box => if offset = 1 then t else 1 - t
  | .quadratic =>
    if offset = -1 then t * (t - 1) / (2 : Nat)
    else if offset = 0 then 1 - t ^ 2
    else t * (t + 1) / (2 : Nat)

/-- The weight of the voxel at an offset. -/
def weightAt (s : Sampler) (t : Vec3 K) (o : Coord) : K :=
  s.weight t.x o.x * s.weight t.y o.y * s.weight t.z o.z

/-- The sum of the readings of the stencil times their weights. -/
def blend (s : Sampler) (t : Vec3 K) (read : Coord → K) : K :=
  (s.stencil.map fun o => s.weightAt t o * read o).sum

@[simp] theorem weight_box_zero (t : K) : weight .box t 0 = 1 - t := by
  simp [weight]

@[simp] theorem weight_box_one (t : K) : weight .box t 1 = t := by
  simp [weight]

@[simp] theorem weight_quadratic_neg_one (t : K) : weight .quadratic t (-1) = t * (t - 1) / 2 := by
  simp [weight]

@[simp] theorem weight_quadratic_zero (t : K) : weight .quadratic t 0 = 1 - t ^ 2 := by
  simp [weight]

@[simp] theorem weight_quadratic_one (t : K) : weight .quadratic t 1 = t * (t + 1) / 2 := by
  simp [weight]

/-! ## Blends axis by axis -/

/-- The offsets that a sampler reads on one axis. -/
def offsets : Sampler → List Int
  | .point => [0]
  | .box => [0, 1]
  | .quadratic => [-1, 0, 1]

theorem stencil_eq_offsets (s : Sampler) :
    s.stencil = s.offsets.flatMap fun x => s.offsets.flatMap fun y =>
      s.offsets.map fun z => ⟨x, y, z⟩ := by
  cases s <;> rfl

/-- The sum of readings along one axis times their weights. -/
def along (s : Sampler) (t : K) (f : Int → K) : K :=
  (s.offsets.map fun d => s.weight t d * f d).sum

theorem blend_eq_along (s : Sampler) (t : Vec3 K) (read : Coord → K) :
    s.blend t read =
      s.along t.x fun x => s.along t.y fun y => s.along t.z fun z => read ⟨x, y, z⟩ := by
  have hfactor : ∀ (w : K) (f : Int → K),
      w * (s.offsets.map f).sum = (s.offsets.map fun d => w * f d).sum := fun w f =>
    (List.sum_map_mul_left s.offsets f w).symm
  unfold blend along
  simp only [stencil_eq_offsets, List.flatMap_def, List.map_flatten, List.sum_flatten,
    List.map_map, Function.comp_def, hfactor, weightAt, mul_assoc]

end Weights

variable {K : Type} [Field K] [LinearOrder K] [FloorRing K]

theorem along_box (t : K) (f : Int → K) : along .box t f = Blend.lerp (f 0) (f 1) t := by
  have hsum : along .box t f = weight .box t 0 * f 0 + (weight .box t 1 * f 1 + 0) := rfl
  rw [hsum, weight_box_zero, weight_box_one, Blend.lerp]
  ring

theorem along_quadratic (t : K) (f : Int → K) :
    along .quadratic t f = Blend.parabola (f (-1)) (f 0) (f 1) t := by
  have hsum : along .quadratic t f =
      weight .quadratic t (-1) * f (-1) +
        (weight .quadratic t 0 * f 0 + (weight .quadratic t 1 * f 1 + 0)) := rfl
  rw [hsum, weight_quadratic_neg_one, weight_quadratic_zero, weight_quadratic_one,
    Blend.parabola, Exact.half_eq]
  ring

theorem trilinear_eq_blend (t : Vec3 K) (r : Coord → K) :
    Blend.trilinear t r = blend .box t r := by
  rw [blend_eq_along]
  simp only [along_box]
  rfl

theorem triquadratic_eq_blend (t : Vec3 K) (r : Coord → K) :
    Blend.triquadratic t r = blend .quadratic t r := by
  rw [blend_eq_along]
  simp only [along_quadratic]
  rfl

/-! ## Voxels that carry weight -/

variable [IsStrictOrderedRing K]

theorem neg_one_lt_rest (s : Sampler) (p : Vec3 K) (axis : Axis) :
    -1 < (p - (s.baseOf p).toScalars).get axis := by
  rw [get_rest]
  rcases s.get_baseOf p axis with h | h
  · rw [h]
    have hle := Int.floor_le (p.get axis)
    linarith
  · rw [h]
    have hle := Int.floor_le (p.get axis + 1 / 2)
    linarith

theorem weighs_box_iff {t : K} (hlt : t < 1) {d : Int} (hd : d = 0 ∨ d = 1) :
    weighs .box t d = true ↔ weight .box t d ≠ 0 := by
  rcases hd with rfl | rfl
  · have hfull : weight .box t 0 ≠ 0 := by
      rw [weight_box_zero]
      intro h
      linarith
    exact iff_of_true (weighs_box_zero hlt) hfull
  · rw [weight_box_one]
    exact weighs_box_one_iff

/-- The outer weights vanish only where the fraction does, and the middle one nowhere. -/
theorem weighs_quadratic_iff {t : K} (hlow : -1 < t) (hhigh : t < 1) {d : Int}
    (hd : d = -1 ∨ d = 0 ∨ d = 1) : weighs .quadratic t d = true ↔ weight .quadratic t d ≠ 0 := by
  have hup : t + 1 ≠ 0 := by
    intro h
    linarith
  have hdown : t - 1 ≠ 0 := by
    intro h
    linarith
  have houter : ∀ d : Int, d ≠ 0 → (weighs .quadratic t d = true ↔ t ≠ 0) := by
    intro d hd
    show (decide (d = 0) || !(t == ((0 : Int) : K))) = true ↔ _
    simp [hd]
  rcases hd with rfl | rfl | rfl
  · rw [houter _ (by decide), weight_quadratic_neg_one]
    simp [hdown]
  · have hproduct : weight .quadratic t 0 = -((t + 1) * (t - 1)) := by
      rw [weight_quadratic_zero]
      ring
    have hmiddle : weight .quadratic t 0 ≠ 0 := by
      rw [hproduct]
      exact neg_ne_zero.mpr (mul_ne_zero hup hdown)
    exact iff_of_true rfl hmiddle
  · rw [houter _ (by decide), weight_quadratic_one]
    simp [hup]

theorem weighs_iff_weight_ne_zero {s : Sampler} {t : K} (hlow : -1 < t) (hhigh : t < 1)
    {o : Coord} (ho : o ∈ s.stencil) (axis : Axis) :
    s.weighs t (o.get axis) = true ↔ s.weight t (o.get axis) ≠ 0 := by
  obtain ⟨-, hnonneg, hge, hle⟩ := stencil_get ho axis
  cases s with
  | point => exact iff_of_true rfl one_ne_zero
  | box =>
    have hge := hnonneg rfl
    exact weighs_box_iff hhigh (by omega)
  | quadratic => exact weighs_quadratic_iff hlow hhigh (by omega)

theorem touches_iff_weightAt_ne_zero (s : Sampler) (p : Vec3 K) {o : Coord}
    (ho : o ∈ s.stencil) :
    s.touches (p - (s.baseOf p).toScalars) o = true ↔
      s.weightAt (p - (s.baseOf p).toScalars) o ≠ 0 := by
  have haxis := fun axis => weighs_iff_weight_ne_zero (neg_one_lt_rest s p axis)
    (rest_lt_one s p axis) ho axis
  rw [touches_iff, weightAt, mul_ne_zero_iff, mul_ne_zero_iff]
  constructor
  · intro h
    exact ⟨⟨(haxis .x).mp (h .x), (haxis .y).mp (h .y)⟩, (haxis .z).mp (h .z)⟩
  · rintro ⟨⟨hx, hy⟩, hz⟩ axis
    cases axis
    · exact (haxis .x).mpr hx
    · exact (haxis .y).mpr hy
    · exact (haxis .z).mpr hz

end SparseVoxel.Sampler

import SparseVoxel.Proofs.Sampler.Uniform

/-!
# Samples at voxels

In exact arithmetic every sampler reads a voxel of the lattice as it is (`sampleAt_toScalars`): the
position has no fraction, so no other voxel of the stencil carries weight.
-/

namespace SparseVoxel

variable {K : Type} [Field K] [LinearOrder K] [FloorRing K]

theorem Blend.parabola_zero (v0 v1 v2 : K) : parabola v0 v1 v2 0 = v1 := by
  unfold parabola
  ring

namespace Sampler

theorem weighs_quadratic_of_ne_zero {offset : Int} (h : offset ≠ 0) :
    weighs .quadratic (0 : K) offset = false := by
  show (decide (offset = 0) || !((0 : K) == ((0 : Int) : K))) = false
  simp [h]

variable [IsStrictOrderedRing K]

theorem nearest_toScalars (x : Coord) : nearest (x.toScalars : Vec3 K) = x := by
  have haxis : ∀ n : Int, ⌊(n : K) + 1 / 2⌋ = n := by
    intro n
    rw [Int.floor_eq_iff]
    constructor
    · linarith
    · linarith
  exact Vec3.ext (haxis _) (haxis _) (haxis _)

theorem baseOf_toScalars (s : Sampler) (x : Coord) : s.baseOf (x.toScalars : Vec3 K) = x := by
  cases s with
  | point => exact nearest_toScalars x
  | box => exact Vec3.ext (Int.floor_intCast _) (Int.floor_intCast _) (Int.floor_intCast _)
  | quadratic => exact nearest_toScalars x

variable {V : Type} [VoxelValue K V] [ExactValue K V]

/-- Without a fraction a sampler gives the reading at the base voxel. -/
theorem evaluate_zero (s : Sampler) (read : Coord → Voxel V) :
    s.evaluate (.replicate (0 : K)) read = read ⟨0, 0, 0⟩ := by
  have hrest : ∀ axis, (Vec3.replicate (0 : K)).get axis = 0 := by
    intro axis
    cases axis <;> rfl
  have hlt : ∀ axis, (Vec3.replicate (0 : K)).get axis < 1 := by
    intro axis
    rw [hrest]
    exact zero_lt_one
  -- a voxel of the stencil off the base has no weight on the axis that takes it there
  have hbase : ∀ o ∈ s.stencil, s.touches (.replicate (0 : K)) o = true → o = ⟨0, 0, 0⟩ := by
    intro o ho htouches
    have haxis : ∀ axis, o.get axis = 0 := by
      intro axis
      have hweighs := touches_iff.mp htouches axis
      rw [hrest] at hweighs
      obtain ⟨hzero, hnonneg, hlo, hhi⟩ := stencil_get ho axis
      cases s with
      | point => exact hzero rfl
      | box =>
        have hone : o.get axis ≠ 1 := by
          intro h
          rw [h, weighs_box_one_iff] at hweighs
          exact hweighs rfl
        have := hnonneg rfl
        omega
      | quadratic =>
        by_contra hne
        rw [weighs_quadratic_of_ne_zero hne] at hweighs
        cases hweighs
    exact Vec3.ext (haxis .x) (haxis .y) (haxis .z)
  cases s with
  | point => rfl
  | box => exact evaluate_box_of_touched hlt fun o ho htouches => by rw [hbase o ho htouches]
  | quadratic =>
    refine congrArg₂ Voxel.mk (blend_eq_value fun channel => ?_)
      (any_active_of_touched (touches_zero .quadratic hlt) fun o ho htouches => by
        rw [hbase o ho htouches])
    simp only [Blend.triquadratic, Vec3.replicate, Blend.parabola_zero]

/-- A voxel of the lattice is sampled as it is. -/
theorem sampleAt_toScalars (s : Sampler) (read : Coord → Voxel V) (x : Coord) :
    s.sampleAt read (x.toScalars : Vec3 K) = read x := by
  have hrest : (x.toScalars : Vec3 K) - x.toScalars = .replicate 0 :=
    Vec3.ext (sub_self _) (sub_self _) (sub_self _)
  have hbase : x + ⟨0, 0, 0⟩ = x := Vec3.ext (Int.add_zero _) (Int.add_zero _) (Int.add_zero _)
  rw [sampleAt, baseOf_toScalars, hrest, evaluate_zero, hbase]

end Sampler

end SparseVoxel

import SparseVoxel.Proofs.Sampler.Reading

/-!
# Samples of uniform surroundings

In exact arithmetic a sample depends only on the readings that carry weight, so where these agree
the sample is the state they agree on. A position in a box whose voxels, and those within the
radius of the sampler, have one state is therefore sampled as that state
(`sampleAt_of_uniform_expand`). The nearest voxel and the linear blend need the box alone
(`sampleAt_of_uniform`): a voxel of the stencil outside the box has no weight.
-/

namespace SparseVoxel.Sampler

section Blend

/-- A blend whose channels are those of a value is that value. -/
theorem blend_eq_value {K V : Type} [VoxelValue K V] [ExactValue K V] {blend : (V → K) → K} {v : V}
    (h : ∀ channel, blend channel = channel v) : VoxelValue.blend blend = v := by
  rw [show blend = fun channel => channel v from funext h, ExactValue.blend_channel]

end Blend

variable {K : Type} [Field K] [LinearOrder K] [FloorRing K]

/-! ## Weights -/

section Activity

variable {V : Type}

/-- Readings that agree wherever the stencil carries weight pass on their activity. -/
theorem any_active_of_touched {s : Sampler} {rest : Vec3 K} {f : Coord → Voxel V} {v : Voxel V}
    (hzero : s.touches rest ⟨0, 0, 0⟩ = true)
    (h : ∀ o ∈ s.stencil, s.touches rest o = true → f o = v) :
    (s.stencil.any fun o => s.touches rest o && (f o).active) = v.active := by
  have hmem : (⟨0, 0, 0⟩ : Coord) ∈ s.stencil := by cases s <;> decide
  rw [Bool.eq_iff_iff, List.any_eq_true]
  constructor
  · rintro ⟨o, ho, hon⟩
    rw [Bool.and_eq_true] at hon
    rw [← h o ho hon.1]
    exact hon.2
  · intro hv
    refine ⟨⟨0, 0, 0⟩, hmem, ?_⟩
    rw [hzero, h _ hmem hzero, hv]
    rfl

end Activity

theorem touches_iff {s : Sampler} {rest : Vec3 K} {o : Coord} :
    s.touches rest o = true ↔ ∀ axis, s.weighs (rest.get axis) (o.get axis) = true := by
  rw [touches, Bool.and_eq_true, Bool.and_eq_true, and_assoc, Axis.forall_iff]
  rfl

theorem weighs_box_one_iff {rest : K} : weighs .box rest 1 = true ↔ rest ≠ 0 := by
  show (!(rest == ((0 : Int) : K))) = true ↔ _
  simp

theorem get_rest (s : Sampler) (p : Vec3 K) (axis : Axis) :
    (p - (s.baseOf p).toScalars).get axis = p.get axis - ((s.baseOf p).get axis : K) := by
  rw [← Affine.get_toScalars]
  exact Vec3.get_zipWith _ _ _ _

variable [IsStrictOrderedRing K]

theorem weighs_box_zero {rest : K} (h : rest < 1) : weighs .box rest 0 = true := by
  have hne : (1 : K) - rest ≠ 0 := by
    intro he
    linarith
  show (!(((1 : Int) : K) - rest == ((0 : Int) : K))) = true
  simpa using hne

theorem touches_zero (s : Sampler) {rest : Vec3 K} (h : ∀ axis, rest.get axis < 1) :
    s.touches rest ⟨0, 0, 0⟩ = true := by
  refine touches_iff.mpr fun axis => ?_
  have haxis : (⟨0, 0, 0⟩ : Coord).get axis = 0 := by cases axis <;> rfl
  rw [haxis]
  cases s with
  | point => rfl
  | box => exact weighs_box_zero (h axis)
  | quadratic => rfl

theorem rest_lt_one (s : Sampler) (p : Vec3 K) (axis : Axis) :
    (p - (s.baseOf p).toScalars).get axis < 1 := by
  rw [get_rest]
  rcases s.get_baseOf p axis with h | h
  · rw [h]
    have hlt := Int.lt_floor_add_one (p.get axis)
    linarith
  · rw [h]
    have hlt := Int.lt_floor_add_one (p.get axis + 1 / 2)
    linarith

/-! ## Samples -/

variable {V : Type} [VoxelValue K V] [ExactValue K V]

/-- A linear blend depends on the readings that carry weight alone. -/
theorem evaluate_box_of_touched {rest : Vec3 K} (hrest : ∀ axis, rest.get axis < 1)
    {f : Coord → Voxel V} {v : Voxel V}
    (h : ∀ o ∈ stencil .box, touches .box rest o = true → f o = v) : evaluate .box rest f = v := by
  refine congrArg₂ Voxel.mk (blend_eq_value fun channel => ?_)
    (any_active_of_touched (touches_zero .box hrest) h)
  refine Blend.trilinear_eq_of_weighted fun o ho hx hy hz => ?_
  have haxis : ∀ axis, o.get axis = 1 → rest.get axis ≠ 0 :=
    Axis.forall_iff.mpr ⟨hx, hy, hz⟩
  rw [h o ho (touches_iff.mpr fun axis => ?_)]
  obtain ⟨-, hnonneg, -, hle⟩ := stencil_get ho axis
  have hcases : o.get axis = 0 ∨ o.get axis = 1 := by
    have := hnonneg rfl
    omega
  rcases hcases with h0 | h1
  · rw [h0]
    exact weighs_box_zero (hrest axis)
  · rw [h1]
    exact weighs_box_one_iff.mpr (haxis axis h1)

theorem evaluate_const (s : Sampler) {rest : Vec3 K} (hrest : ∀ axis, rest.get axis < 1)
    (v : Voxel V) : s.evaluate rest (fun _ => v) = v := by
  cases s with
  | point => rfl
  | box => exact evaluate_box_of_touched hrest fun _ _ _ => rfl
  | quadratic =>
    exact congrArg₂ Voxel.mk (blend_eq_value fun channel => Blend.triquadratic_const rest _)
      (any_active_of_touched (touches_zero .quadratic hrest) fun _ _ _ => rfl)

/-- Where all voxels within the radius of a box have one state, positions in the box are sampled as
that state. -/
theorem sampleAt_of_uniform_expand (s : Sampler) {b : Box} {p : Vec3 K} (hp : Within b p)
    {read : Coord → Voxel V} {v : Voxel V} (h : ∀ c ∈ b.expand s.radius, read c = v) :
    s.sampleAt read p = v := by
  rw [sampleAt, evaluate_congr s _ fun o ho => h _ (mem_expand_of_stencil s hp ho)]
  exact evaluate_const s (rest_lt_one s p) v

/-- A voxel of the stencil of a linear blend that carries weight lies in every box around the
position. -/
theorem mem_of_touches_box {b : Box} {p : Vec3 K} (hp : Within b p) {o : Coord}
    (ho : o ∈ stencil .box)
    (htouches : touches .box (p - (baseOf .box p).toScalars) o = true) :
    baseOf .box p + o ∈ b := by
  refine Box.mem_iff_get.mpr fun axis => ?_
  have hbase : (baseOf .box p).get axis = ⌊p.get axis⌋ := Vec3.get_map _ _ _
  have hsum : (baseOf .box p + o).get axis = ⌊p.get axis⌋ + o.get axis := by
    rw [← hbase]
    exact Vec3.get_zipWith _ _ _ _
  have hfloor := floor_between (hp axis).1 (hp axis).2
  obtain ⟨-, hnonneg, -, hle⟩ := stencil_get ho axis
  have hcases : o.get axis = 0 ∨ o.get axis = 1 := by
    have := hnonneg rfl
    omega
  rw [hsum]
  rcases hcases with h0 | h1
  · rw [h0]
    omega
  · -- the position lies strictly above its floor, and so does the corner of the box
    have hweighs := touches_iff.mp htouches axis
    rw [h1, weighs_box_one_iff, get_rest, hbase, sub_ne_zero] at hweighs
    have hlt : ((⌊p.get axis⌋ : Int) : K) < b.hi.get axis :=
      lt_of_lt_of_le (lt_of_le_of_ne (Int.floor_le _) hweighs.symm) (hp axis).2
    have hlt : ⌊p.get axis⌋ < b.hi.get axis := Int.cast_lt.mp hlt
    rw [h1]
    omega

/-- Where all voxels of a box have one state, positions in the box are sampled as that state,
unless three voxels are blended on each axis. -/
theorem sampleAt_of_uniform {s : Sampler} (hs : s ≠ .quadratic) {b : Box} {p : Vec3 K}
    (hp : Within b p) {read : Coord → Voxel V} {v : Voxel V} (h : ∀ c ∈ b, read c = v) :
    s.sampleAt read p = v := by
  cases s with
  | point =>
    rw [sampleAt_point]
    exact h _ (nearest_mem hp)
  | box =>
    exact evaluate_box_of_touched (rest_lt_one .box p) fun o ho htouches =>
      h _ (mem_of_touches_box hp ho htouches)
  | quadratic => exact absurd rfl hs

end SparseVoxel.Sampler

import SparseVoxel.Proofs.Sampler.Component

/-!
# Linear blends stay between their corners

In exact arithmetic the weights of a linear blend are not negative and add up to one. A blend
therefore keeps the order of readings (`linear_le_linear`) and lies between two readings, and only
the corners of the cell that carry weight, `Sampler.corners`, count for this. Conversion to a kind
of values keeps both. `readWindow?_box_between` is the main statement.
-/

namespace SparseVoxel.Sampler

variable {K : Type} [Field K] [LinearOrder K] [FloorRing K]

/-- The voxels around a position that carry weight in the linear blend there. -/
def corners (p : Vec3 K) : List Coord :=
  let base := baseOf .box p
  ((stencil .box).filter fun o => weightAt .box (p - base.toScalars) o ≠ 0).map (base + ·)

theorem mem_corners {p : Vec3 K} {o : Coord} (ho : o ∈ stencil .box)
    (hweight : weightAt .box (p - (baseOf .box p).toScalars) o ≠ 0) :
    baseOf .box p + o ∈ corners p :=
  List.mem_map_of_mem (List.mem_filter.mpr ⟨ho, decide_eq_true hweight⟩)

/-- The linear blend of readings around a position. -/
def linear (read : Coord → K) (p : Vec3 K) : K :=
  blend .box (p - (baseOf .box p).toScalars) fun o => read (baseOf .box p + o)

theorem linear_const (a : K) (p : Vec3 K) : linear (fun _ => a) p = a := by
  rw [linear, ← trilinear_eq_blend]
  exact Blend.trilinear_eq_of_weighted fun _ _ _ _ _ => rfl

variable [IsStrictOrderedRing K]

/-! ## Weights -/

theorem rest_box_nonneg (p : Vec3 K) (axis : Axis) :
    0 ≤ (p - (baseOf .box p).toScalars).get axis := by
  rw [get_rest, baseOf, Vec3.get_map, sub_nonneg]
  exact Int.floor_le _

theorem weightAt_box_nonneg (p : Vec3 K) (o : Coord) :
    0 ≤ weightAt .box (p - (baseOf .box p).toScalars) o := by
  have haxis : ∀ axis, 0 ≤ weight .box ((p - (baseOf .box p).toScalars).get axis) (o.get axis) := by
    intro axis
    show 0 ≤ if o.get axis = 1 then (p - (baseOf .box p).toScalars).get axis
      else 1 - (p - (baseOf .box p).toScalars).get axis
    split
    · exact rest_box_nonneg p axis
    · exact sub_nonneg.mpr (rest_lt_one .box p axis).le
  exact mul_nonneg (mul_nonneg (haxis .x) (haxis .y)) (haxis .z)

/-- The base voxel always carries weight. -/
theorem weightAt_box_base_pos (p : Vec3 K) :
    0 < weightAt .box (p - (baseOf .box p).toScalars) ⟨0, 0, 0⟩ := by
  refine lt_of_le_of_ne (weightAt_box_nonneg p _) (Ne.symm ?_)
  exact (touches_iff_weightAt_ne_zero .box p (by decide)).mp
    (touches_zero .box (rest_lt_one .box p))

/-! ## Blends of readings in order -/

/-- A voxel that carries no weight does not count. -/
theorem weightAt_mul_le {f g : Coord → K} {p : Vec3 K} (h : ∀ c ∈ corners p, f c ≤ g c)
    {o : Coord} (ho : o ∈ stencil .box) :
    weightAt .box (p - (baseOf .box p).toScalars) o * f (baseOf .box p + o) ≤
      weightAt .box (p - (baseOf .box p).toScalars) o * g (baseOf .box p + o) := by
  by_cases hweight : weightAt .box (p - (baseOf .box p).toScalars) o = 0
  · rw [hweight, zero_mul, zero_mul]
  · exact mul_le_mul_of_nonneg_left (h _ (mem_corners ho hweight)) (weightAt_box_nonneg p o)

theorem linear_le_linear {f g : Coord → K} {p : Vec3 K} (h : ∀ c ∈ corners p, f c ≤ g c) :
    linear f p ≤ linear g p := by
  unfold linear blend
  exact List.sum_le_sum fun o ho => weightAt_mul_le h ho

theorem linear_lt_linear {f g : Coord → K} {p : Vec3 K} (h : ∀ c ∈ corners p, f c < g c) :
    linear f p < linear g p := by
  have hpos := weightAt_box_base_pos p
  unfold linear blend
  refine List.sum_lt_sum _ _ (fun o ho => weightAt_mul_le (fun c hc => (h c hc).le) ho)
    ⟨⟨0, 0, 0⟩, by decide, ?_⟩
  exact mul_lt_mul_of_pos_left (h _ (mem_corners (by decide) hpos.ne')) hpos

theorem exists_corner_le_linear (f : Coord → K) (p : Vec3 K) :
    ∃ c ∈ corners p, f c ≤ linear f p := by
  by_contra habove
  push Not at habove
  have hlt := linear_lt_linear (f := fun _ => linear f p) habove
  rw [linear_const] at hlt
  exact lt_irrefl _ hlt

theorem exists_linear_le_corner (f : Coord → K) (p : Vec3 K) :
    ∃ c ∈ corners p, linear f p ≤ f c := by
  by_contra hbelow
  push Not at hbelow
  have hlt := linear_lt_linear (g := fun _ => linear f p) hbelow
  rw [linear_const] at hlt
  exact lt_irrefl _ hlt

/-! ## Samples -/

section Samples

variable {kind : ValueKind} {read read' : Coord → Voxel (kind.ValueOver K)}

theorem component_sampleAt_box (read : Coord → Voxel (kind.ValueOver K)) (p : Vec3 K)
    (axis : Axis) : kind.component (sampleAt .box read p).value axis =
      kind.convert (linear (fun c => kind.component (read c).value axis) p) :=
  component_sampleAt .box kind read p axis

/-- Each component of a sample lies between that component of two corners that carry weight. -/
theorem component_sampleAt_between (read : Coord → Voxel (kind.ValueOver K)) (p : Vec3 K)
    (axis : Axis) :
    (∃ c ∈ corners p,
        kind.component (read c).value axis ≤ kind.component (sampleAt .box read p).value axis) ∧
      ∃ c ∈ corners p,
        kind.component (sampleAt .box read p).value axis ≤ kind.component (read c).value axis := by
  obtain ⟨lo, hlo, hle⟩ := exists_corner_le_linear (fun c => kind.component (read c).value axis) p
  obtain ⟨hi, hhi, hge⟩ := exists_linear_le_corner (fun c => kind.component (read c).value axis) p
  have hbetween := ValueKind.convert_between hle hge
  rw [component_sampleAt_box]
  exact ⟨⟨lo, hlo, hbetween.1⟩, hi, hhi, hbetween.2⟩

/-- An integer sample is the integer nearest to the blend, which fits. -/
theorem component_sampleAt_of_bound {bound : Int} (hbound : kind.bound? = some bound)
    (read : Coord → Voxel (kind.ValueOver K)) (p : Vec3 K) (axis : Axis) :
    ∃ n, RoundsTo (linear (fun c => kind.component (read c).value axis) p) n ∧
      -bound ≤ n ∧ n < bound ∧ kind.component (sampleAt .box read p).value axis = n := by
  obtain ⟨lo, -, hle⟩ := exists_corner_le_linear (fun c => kind.component (read c).value axis) p
  obtain ⟨hi, -, hge⟩ := exists_linear_le_corner (fun c => kind.component (read c).value axis) p
  obtain ⟨hconvert, hfits, hfits'⟩ := ValueKind.convert_of_bound hbound hle hge
  refine ⟨_, roundsTo_roundEven _, hfits, hfits', ?_⟩
  rw [component_sampleAt_box, hconvert]

/-- A truth value that is sampled is read at a corner that carries weight. -/
theorem exists_corner_eq_of_bool (hkind : kind = .bool)
    (read : Coord → Voxel (kind.ValueOver K)) (p : Vec3 K) :
    ∃ c ∈ corners p, (read c).value = (sampleAt .box read p).value := by
  subst hkind
  obtain ⟨⟨lo, hlo, hle⟩, hi, hhi, hge⟩ := component_sampleAt_between read p .x
  have hbool : ∀ a b : Bool, ValueKind.component (K := K) .bool a .x ≤
      ValueKind.component .bool b .x → a = true → b = true := by
    intro a b hab ha
    by_contra hb
    rw [Bool.not_eq_true] at hb
    subst ha hb
    exact absurd hab (not_le.mpr zero_lt_one)
  cases hv : (sampleAt .box read p).value with
  | true => exact ⟨hi, hhi, hbool _ _ hge hv⟩
  | false =>
    refine ⟨lo, hlo, Bool.eq_false_iff.mpr fun htrue => ?_⟩
    rw [hbool _ _ hle htrue] at hv
    cases hv

theorem component_sampleAt_mono {p : Vec3 K} {axis : Axis} (h : ∀ c ∈ corners p,
      kind.component (read c).value axis ≤ kind.component (read' c).value axis) :
    kind.component (sampleAt .box read p).value axis ≤
      kind.component (sampleAt .box read' p).value axis := by
  obtain ⟨lo, -, hle⟩ := exists_corner_le_linear (fun c => kind.component (read c).value axis) p
  obtain ⟨hi, -, hge⟩ := exists_linear_le_corner (fun c => kind.component (read' c).value axis) p
  rw [component_sampleAt_box, component_sampleAt_box]
  exact ValueKind.convert_mono hle (linear_le_linear h) hge

end Samples

/-- **Linear blends do not overshoot.** A window that holds the eight corners around a position is
sampled there, and each component of the sample lies between that component of two corners that
carry weight. So an integer is the nearest to the blend and fits, and a truth value is that of
such a corner. Greater components at these corners do not make a component of the sample less. -/
theorem readWindow?_box_between (kind : ValueKind) {w : Window (kind.ValueOver K)}
    {read : Coord → Voxel (kind.ValueOver K)} {box : Box} (hw : w.Holds read box) {p : Vec3 K}
    (hp : ∀ o ∈ stencil .box, baseOf .box p + o ∈ box) :
    ∃ v, readWindow? .box w (p - box.lo.toScalars) = .ok v ∧
      (∀ axis,
        (∃ c ∈ corners p, kind.component (read c).value axis ≤ kind.component v.value axis) ∧
          ∃ c ∈ corners p, kind.component v.value axis ≤ kind.component (read c).value axis) ∧
      (∀ bound, kind.bound? = some bound → ∀ axis,
        ∃ n, RoundsTo (linear (fun c => kind.component (read c).value axis) p) n ∧
          -bound ≤ n ∧ n < bound ∧ kind.component v.value axis = n) ∧
      (kind = .bool → ∃ c ∈ corners p, (read c).value = v.value) ∧
      ∀ (w' : Window (kind.ValueOver K)) (read' : Coord → Voxel (kind.ValueOver K)),
        w'.Holds read' box →
        ∃ v', readWindow? .box w' (p - box.lo.toScalars) = .ok v' ∧ ∀ axis,
          (∀ c ∈ corners p,
            kind.component (read c).value axis ≤ kind.component (read' c).value axis) →
          kind.component v.value axis ≤ kind.component v'.value axis := by
  refine ⟨sampleAt .box read p, readWindow?_of_holds .box hw hp, ?_, ?_, ?_, ?_⟩
  · exact component_sampleAt_between read p
  · exact fun bound hbound => component_sampleAt_of_bound hbound read p
  · exact fun hkind => exists_corner_eq_of_bool hkind read p
  · intro w' read' hw'
    exact ⟨sampleAt .box read' p, readWindow?_of_holds .box hw' hp,
      fun axis h => component_sampleAt_mono h⟩

/-- The greatest integers of 32 bits, at a position on a face of its cell: the four corners off the
face carry no weight, and the nearest integer to the blend is still one that fits. -/
theorem readWindow?_box_between_of_greatest :
    let read : Coord → Voxel Int32 := fun c =>
      ⟨if c.z = 1 then 0 else if c.x = 0 then 2147483647 else 2147483646, c.y = 0⟩
    let box : Box := ⟨⟨-1, 0, 0⟩, ⟨0, 1, 1⟩⟩
    let w : Window Int32 := ⟨box, (box.coords.map read).toArray⟩
    let p : Vec3 ℚ := ⟨-1 / 4, 1 / 2, 0⟩
    w.Holds read box ∧ (∀ o ∈ stencil .box, baseOf .box p + o ∈ box) ∧
      corners p = [⟨-1, 0, 0⟩, ⟨-1, 1, 0⟩, ⟨0, 0, 0⟩, ⟨0, 1, 0⟩] ∧
      ∃ v, readWindow? .box w (p - box.lo.toScalars) = .ok v ∧
        (∃ c ∈ corners p, ((read c).value.toInt : ℚ) ≤ v.value.toInt) ∧
        (∃ c ∈ corners p, (v.value.toInt : ℚ) ≤ (read c).value.toInt) ∧
        ∃ n : Int, -2147483648 ≤ n ∧ n < 2147483648 ∧ (v.value.toInt : ℚ) = n := by
  intro read box w p
  have hw : w.Holds read box := by
    have hcells : ∀ c ∈ box.coords, w.cell? (c - box.lo) = some (read c) := by decide +kernel
    exact fun c hc => hcells c (Box.mem_coords.mpr hc)
  have hp : ∀ o ∈ stencil .box, baseOf .box p + o ∈ box := by decide +kernel
  obtain ⟨v, hv, hbetween, hinteger, -⟩ := readWindow?_box_between .int32 hw hp
  obtain ⟨n, -, hlo, hhi, hn⟩ := hinteger _ rfl .x
  exact ⟨hw, hp, by decide +kernel, v, hv, (hbetween .x).1, (hbetween .x).2, n, hlo, hhi, hn⟩

end SparseVoxel.Sampler

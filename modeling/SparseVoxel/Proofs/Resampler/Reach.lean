import SparseVoxel.Proofs.Resampler.Settled
import SparseVoxel.Proofs.Matrix.Four

/-!
# The reach of a map holds every active sample

A sample is active only if a voxel of the stencil that carries weight is active, and such a voxel
is no farther from the position than the support of the sampler (`exists_active_of_sampleAt`). The
map takes that distance to at most its product with the sum of the magnitudes in a row
(`Vec3.abs_dot_le`), so if the reach is padded by as much, the voxels outside it have no active
sample: this is `Resampler.mem_reach_of_active_sample`. A map that keeps lengths fulfils this with a
padding by one voxel, if the nearest voxel is read.
-/

namespace SparseVoxel

variable {K : Type} [Field K] [LinearOrder K]

/-! ## Sums of magnitudes -/

/-- The sum of the magnitudes of the entries. -/
def Vec3.taxicab (v : Vec3 K) : K :=
  |v.x| + |v.y| + |v.z|

variable [FloorRing K]

/-! ## The support of a sampler -/

/-- How far on each axis a voxel that carries weight can be from the position: half a voxel, one
voxel, or one and a half. -/
def Sampler.support : Sampler → K
  | .point => Scalar.half
  | .box => 1
  | .quadratic => 1 + Scalar.half

variable [IsStrictOrderedRing K]

theorem Vec3.abs_dot_le {v w : Vec3 K} {d : K} (h : ∀ axis, |w.get axis| ≤ d) :
    |v.dot w| ≤ d * v.taxicab := by
  have hterm : ∀ a b : K, |b| ≤ d → |a * b| ≤ d * |a| := by
    intro a b hb
    rw [abs_mul, mul_comm]
    exact mul_le_mul_of_nonneg_right hb (abs_nonneg a)
  have hx := hterm v.x w.x (h .x)
  have hy := hterm v.y w.y (h .y)
  have hz := hterm v.z w.z (h .z)
  calc |v.dot w| = |v.x * w.x + v.y * w.y + v.z * w.z| := by rw [Affine.dot_eq]
    _ ≤ |v.x * w.x| + |v.y * w.y| + |v.z * w.z| := abs_add_three _ _ _
    _ ≤ d * |v.x| + d * |v.y| + d * |v.z| := add_le_add (add_le_add hx hy) hz
    _ = d * v.taxicab := by rw [Vec3.taxicab]; ring

/-- The magnitudes of a vector of length one add up to at most two. -/
theorem Vec3.taxicab_le_of_dot_self {v : Vec3 K} (h : v.dot v = 1) : v.taxicab ≤ 2 := by
  rw [Affine.dot_eq, ← abs_mul_abs_self v.x, ← abs_mul_abs_self v.y, ← abs_mul_abs_self v.z] at h
  unfold Vec3.taxicab
  nlinarith [sq_nonneg (|v.x| - |v.y|), sq_nonneg (|v.y| - |v.z|), sq_nonneg (|v.x| - |v.z|)]

namespace Sampler

/-- The voxels of a stencil are no farther from the position than the support. -/
theorem abs_stencil_sub_le {s : Sampler} {o : Coord} (ho : o ∈ s.stencil) (p : Vec3 K)
    (axis : Axis) : |((s.baseOf p + o).get axis : K) - p.get axis| ≤ s.support := by
  obtain ⟨hzero, hnonneg, hlo, hhi⟩ := stencil_get ho axis
  have hsum : (s.baseOf p + o).get axis = (s.baseOf p).get axis + o.get axis :=
    Vec3.get_zipWith _ _ _ _
  have hlo' : (-1 : K) ≤ o.get axis := by exact_mod_cast hlo
  have hhi' : (o.get axis : K) ≤ 1 := by exact_mod_cast hhi
  rw [hsum, Int.cast_add, abs_le]
  have hfloor := Int.floor_le (p.get axis)
  have hfloor' := Int.lt_floor_add_one (p.get axis)
  have hnear := Int.floor_le (p.get axis + 1 / 2)
  have hnear' := Int.lt_floor_add_one (p.get axis + 1 / 2)
  cases s with
  | point =>
    have hbase : (baseOf .point p).get axis = ⌊p.get axis + 1 / 2⌋ := Vec3.get_map _ _ _
    rw [hbase, hzero rfl, Int.cast_zero, support, Exact.half_eq]
    exact ⟨by linarith, by linarith⟩
  | box =>
    have hbase : (baseOf .box p).get axis = ⌊p.get axis⌋ := Vec3.get_map _ _ _
    have hnonneg' : (0 : K) ≤ o.get axis := by exact_mod_cast hnonneg rfl
    rw [hbase, support]
    exact ⟨by linarith, by linarith⟩
  | quadratic =>
    have hbase : (baseOf .quadratic p).get axis = ⌊p.get axis + 1 / 2⌋ := Vec3.get_map _ _ _
    rw [hbase, support, Exact.half_eq]
    exact ⟨by linarith, by linarith⟩

/-- An active sample reads an active voxel within the support. -/
theorem exists_active_of_sampleAt {V : Type} [VoxelValue K V] {s : Sampler}
    {read : Coord → Voxel V} {p : Vec3 K} (h : (s.sampleAt read p).active = true) :
    ∃ c, (read c).active = true ∧ ∀ axis, |(c.get axis : K) - p.get axis| ≤ s.support := by
  have hstencil : ∃ o ∈ s.stencil, (read (s.baseOf p + o)).active = true := by
    cases s with
    | point => exact ⟨⟨0, 0, 0⟩, List.mem_cons_self, h⟩
    | box =>
      obtain ⟨o, ho, hon⟩ := List.any_eq_true.mp h
      exact ⟨o, ho, ((Bool.and_eq_true _ _).mp hon).2⟩
    | quadratic =>
      obtain ⟨o, ho, hon⟩ := List.any_eq_true.mp h
      exact ⟨o, ho, ((Bool.and_eq_true _ _).mp hon).2⟩
  obtain ⟨o, ho, hactive⟩ := hstencil
  exact ⟨_, hactive, abs_stencil_sub_le ho p⟩

end Sampler

/-! ## Images of near positions -/

/-- Positions that are near on each axis have images that are near. -/
theorem Matrix4.abs_apply_sub_le (m : Matrix4 K) {p q : Vec3 K} {d : K}
    (h : ∀ axis, |p.get axis - q.get axis| ≤ d) (axis : Axis) :
    |(m.apply p).get axis - (m.apply q).get axis| ≤ d * (m.linear.rows.get axis).taxicab := by
  have hsub : (m.apply p).get axis - (m.apply q).get axis =
      (m.linear.rows.get axis).dot (p - q) := by
    rw [Affine.get_apply, Affine.get_apply, Affine.dot_eq, Affine.dot_eq, Affine.dot_eq]
    simp only [Vec3.sub_x, Vec3.sub_y, Vec3.sub_z]
    ring
  rw [hsub]
  refine Vec3.abs_dot_le fun i => ?_
  have hget : (p - q).get i = p.get i - q.get i := Vec3.get_zipWith _ _ _ _
  rw [hget]
  exact h i

/-- An integer near a number between two integers is between them up to the distance. -/
theorem mem_expand_of_near {b : Box} {y : Coord} {p : Vec3 K} {n : Int}
    (hp : Sampler.Within b p) (hnear : ∀ axis, |p.get axis - (y.get axis : K)| ≤ n) :
    y ∈ b.expand n := by
  refine Box.mem_iff_get.mpr fun axis => ?_
  obtain ⟨hlo, hhi⟩ := hp axis
  obtain ⟨hbelow, habove⟩ := abs_le.mp (hnear axis)
  have hlo' : ((b.lo.get axis - n : Int) : K) ≤ y.get axis := by push_cast; linarith
  have hhi' : (y.get axis : K) ≤ (b.hi.get axis + n : Int) := by push_cast; linarith
  have hexpand : (b.expand n).lo.get axis = b.lo.get axis - n ∧
      (b.expand n).hi.get axis = b.hi.get axis + n := ⟨Vec3.get_map _ _ _, Vec3.get_map _ _ _⟩
  rw [hexpand.1, hexpand.2]
  exact ⟨Int.cast_le.mp hlo', Int.cast_le.mp hhi'⟩

/-! ## Completeness of the reach -/

namespace Resampler

/-- A resampler whose map undoes its inverse. -/
structure ExactInverse (r : Resampler K) (inv : Matrix4 K) : Prop where
  inverse_eq : r.inverse = some inv
  apply_apply : ∀ p, r.forward.apply (inv.apply p) = p

/-- The inverse that a resampler finds for its matrix is exact. -/
theorem exactInverse_of_ofMatrix? {o : Options K} {m : Matrix4 K} {r : Resampler K}
    (h : ofMatrix? o m = .ok r) {inv : Matrix4 K} (hinverse : r.inverse = some inv) :
    r.ExactInverse inv := by
  unfold ofMatrix? at h
  split at h
  · cases h
    exact ⟨hinverse, Matrix4.apply_apply_of_invert? hinverse⟩
  · cases h

/-- A map that keeps lengths needs no more than one voxel of padding where the nearest voxel is
read. -/
theorem support_point_mul_taxicab_le {m : Matrix3 K} (h : m.mul m.transpose = .one) (axis : Axis) :
    Sampler.support .point * (m.rows.get axis).taxicab ≤ 1 := by
  have hdot : (m.rows.get axis).dot (m.rows.get axis) = 1 := by
    have hentry : (m.mul m.transpose).entry axis axis = (Matrix3.one : Matrix3 K).entry axis axis :=
      congrArg (·.entry axis axis) h
    cases axis
    · exact hentry.trans Exact.one_eq
    · exact hentry.trans Exact.one_eq
    · exact hentry.trans Exact.one_eq
  have hle := Vec3.taxicab_le_of_dot_self hdot
  rw [Sampler.support, Exact.half_eq]
  linarith

variable {V : Type} {k : Nat} [VoxelValue K V]

/-- **No active sample is cut off.** If the support of the sampler, stretched by the map, is no more
than the padding, every voxel whose sample is active is in the reach of the map; for a map that
keeps lengths a margin of one voxel is enough where the nearest voxel is read. -/
theorem mem_reach_of_active_sample {r : Resampler K} {inv : Matrix4 K} (hexact : r.ExactInverse inv)
    {margin : Int} (hmargin : r.margin = .ok (.int margin)) (sampler : Sampler)
    (hpadding : (∀ axis, sampler.support * (r.forward.linear.rows.get axis).taxicab ≤
        (max (sampler.radius : Int) margin : Int)) ∨
      sampler = .point ∧ 1 ≤ margin ∧ r.forward.linear.mul r.forward.linear.transpose = .one)
    (source : Grid V k) {c : Coord} (hactive : (source.read c).active = true) :
    ∃ active reach, source.activeBox? = some active ∧
      r.reach? active sampler.radius = .ok reach ∧
      ∀ y, ∃ v, sampler.readGrid? source (inv.apply y.toScalars) = .ok v ∧
        (v.active = true → y ∈ reach) := by
  obtain ⟨active, hbox, -⟩ := Grid.mem_activeBox? hactive
  refine ⟨active, _, hbox, reach?_eq hmargin active sampler.radius, fun y => ?_⟩
  refine ⟨_, Sampler.readGrid?_eq_ok sampler source _, fun hsample => ?_⟩
  have hstretch : ∀ axis, sampler.support * (r.forward.linear.rows.get axis).taxicab ≤
      ((max (sampler.radius : Int) margin : Int) : K) := by
    rcases hpadding with h | ⟨rfl, hone, horthogonal⟩
    · exact h
    · intro axis
      refine (support_point_mul_taxicab_le horthogonal axis).trans ?_
      exact_mod_cast hone.trans (le_max_right _ _)
  obtain ⟨d, hd, hnear⟩ := Sampler.exists_active_of_sampleAt hsample
  obtain ⟨active', hbox', hmem⟩ := Grid.mem_activeBox? hd
  cases hbox.symm.trans hbox'
  refine mem_expand_of_near (Affine.imageBox_of_mem r.forward hmem) fun axis => ?_
  have hle := r.forward.abs_apply_sub_le (p := d.toScalars) (q := inv.apply y.toScalars)
    (fun axis => by rw [Affine.get_toScalars]; exact hnear axis) axis
  rw [hexact.apply_apply, Affine.get_toScalars] at hle
  exact hle.trans (hstretch axis)

/-- A rotation that does not map the lattice onto itself, followed by a shift. -/
theorem mem_reach_of_active_sample_of_rotation :
    let forward : Matrix4 ℚ :=
      .affine ⟨⟨⟨3 / 5, -4 / 5, 0⟩, ⟨4 / 5, 3 / 5, 0⟩, ⟨0, 0, 1⟩⟩⟩ ⟨1 / 2, 0, 7⟩
    let inv : Matrix4 ℚ :=
      .affine ⟨⟨⟨3 / 5, 4 / 5, 0⟩, ⟨-4 / 5, 3 / 5, 0⟩, ⟨0, 0, 1⟩⟩⟩ ⟨-3 / 10, 2 / 5, -7⟩
    let r : Resampler ℚ := ⟨forward, some inv, true, true, .ok (.int 1), none⟩
    let source : Grid Int32 3 := (Grid.empty 0).write ⟨1, -2, 3⟩ ⟨7, true⟩
    r.ExactInverse inv ∧ (source.read ⟨1, -2, 3⟩).active = true ∧
      ∃ active reach, source.activeBox? = some active ∧
        r.reach? active (Sampler.radius .point) = .ok reach ∧
        ∀ y, ∃ v, Sampler.readGrid? .point source (inv.apply y.toScalars) = .ok v ∧
          (v.active = true → y ∈ reach) := by
  intro forward inv r source
  have haffine : forward.isAffine = true := Matrix4.isAffine_affine _ _
  have hmul : inv.mul forward = .one := by
    refine Matrix4.ext (Matrix3.ext ?_) ?_ ?_ ?_
    all_goals decide +kernel
  have hinverse : forward.invert? = some inv :=
    Matrix4.invert?_eq_of_mul haffine (Matrix4.isAffine_affine _ _) (by decide +kernel) hmul
  have hr : ofMatrix? ⟨true, true, .ok (.int 1), .ok 0⟩ forward = .ok r := by
    rw [ofMatrix?, hinverse]
    exact if_pos haffine
  have hexact : r.ExactInverse inv := exactInverse_of_ofMatrix? hr rfl
  have hactive : (source.read ⟨1, -2, 3⟩).active = true := by
    rw [Grid.read_write, if_pos rfl]
  have horthogonal : forward.linear.mul forward.linear.transpose = .one := by
    ext <;> simp [forward, Matrix4.affine, Matrix3.mul, Matrix3.columns, Matrix3.transpose,
      Matrix3.ofColumns, Matrix3.one, Matrix3.diagonal, Vec3.map, Vec3.replicate, Affine.dot_eq,
      Exact.zero_eq, Exact.one_eq] <;> norm_num
  exact ⟨hexact, hactive, mem_reach_of_active_sample hexact rfl .point
    (Or.inr ⟨rfl, le_refl 1, horthogonal⟩) source hactive⟩

end Resampler

end SparseVoxel

import SparseVoxel.Proofs.Resampler.Exact

/-!
# Indices into sampling windows

A sampler reads a window at indices relative to its least corner, and an index below zero would
silently count from the far end. `ReadsWithin` says that no index does so: every one that is read
lies between zero and the size of the window, and the sample is made of what the grid reads there.

A pass reads the image of a region, expanded by one more than the radius of its sampler. The spare
voxel makes up for positions that are less than one voxel off. The window of a single sample is the
voxel at the floor of the position, expanded alike; there the spare voxel is needed for a position
whose nearest voxel lies above the floor, and it leaves room for positions that are rounded to
anywhere within one voxel of the floor. `Sampler.reads_stay_within` is about both.
-/

namespace SparseVoxel

/-! ## Expanded boxes and their indices -/

namespace Box

theorem expand_expand (b : Box) (m n : Int) : (b.expand m).expand n = b.expand (n + m) := by
  simp only [expand, Vec3.map, Box.mk.injEq, Vec3.mk.injEq]
  refine ⟨⟨?_, ?_, ?_⟩, ?_, ?_, ?_⟩ <;> omega

theorem lo_add_sub_lo (b : Box) (c : Coord) : b.lo + (c - b.lo) = c := by
  refine Vec3.ext ?_ ?_ ?_ <;> simp only [Vec3.add_x, Vec3.add_y, Vec3.add_z, Vec3.sub_x,
    Vec3.sub_y, Vec3.sub_z] <;> omega

theorem index_of_mem {b : Box} {c : Coord} (h : c ∈ b) (axis : Axis) :
    0 ≤ (c - b.lo).get axis ∧ (c - b.lo).get axis < b.dim.get axis := by
  obtain ⟨hlo, hhi⟩ := Box.mem_iff_get.mp h axis
  cases axis <;> simp only [Vec3.get, dim, Vec3.zipWith, Vec3.sub_x, Vec3.sub_y, Vec3.sub_z]
    at hlo hhi ⊢ <;> omega

end Box

namespace Sampler

/-! ## Positions and their stencils -/

section Positions

variable {K : Type} [Field K] [LinearOrder K] [FloorRing K] [IsStrictOrderedRing K]

theorem Within.displace {b : Box} {p e : Vec3 K} (hp : Within b p)
    (he : ∀ axis, |e.get axis| < 1) : Within (b.expand 1) (p + e) := by
  intro axis
  obtain ⟨hlo, hhi⟩ := hp axis
  obtain ⟨hlow, hhigh⟩ := abs_lt.mp (he axis)
  have hget : (p + e).get axis = p.get axis + e.get axis := Vec3.get_zipWith _ _ _ _
  rw [hget, Box.expand, Vec3.get_map, Vec3.get_map]
  push_cast
  exact ⟨by linarith, by linarith⟩

theorem within_of_near {c : Coord} {q : Vec3 K} (hq : ∀ axis, |q.get axis - c.get axis| ≤ 1) :
    Within ((Box.mk c c).expand 1) q := by
  intro axis
  obtain ⟨hlow, hhigh⟩ := abs_le.mp (hq axis)
  simp only [Box.expand, Vec3.get_map]
  push_cast
  exact ⟨by linarith, by linarith⟩

theorem abs_sub_floor_le (p : Vec3 K) (axis : Axis) :
    |p.get axis - (p.map Int.floor).get axis| ≤ 1 := by
  have hle := Int.floor_le (p.get axis)
  have hlt := Int.lt_floor_add_one (p.get axis)
  rw [Vec3.get_map, abs_le]
  exact ⟨by linarith, by linarith⟩

end Positions

/-! ## Reading within a window -/

variable {K : Type} [Field K] [LinearOrder K] [FloorRing K] {V : Type} [VoxelValue K V] {k : Nat}

/-- At a position relative to the window of a box, every index that the sampler reads is that of a
voxel of the box, and the sample is made of the voxels of the grid at these indices. -/
def ReadsWithin (s : Sampler) (g : Grid V k) (box : Box) (q : Vec3 K) : Prop :=
  ∃ a, s.anchor? q = .ok a ∧
    (∀ o ∈ s.stencil, ∀ axis,
      0 ≤ (a.base + o).get axis ∧ (a.base + o).get axis < box.dim.get axis) ∧
    s.readWindow? (g.window box) q =
      .ok (s.evaluate a.rest fun o => g.read (box.lo + (a.base + o)))

variable [IsStrictOrderedRing K]

theorem readsWithin_of_stencil {s : Sampler} {box : Box} {p : Vec3 K} (g : Grid V k)
    (h : ∀ o ∈ s.stencil, s.baseOf p + o ∈ box) :
    s.ReadsWithin g box (p - box.lo.toScalars) := by
  have hanchor := s.anchor?_eq_ok (p - (box.lo.toScalars : Vec3 K))
  rw [baseOf_sub, sub_toScalars_sub] at hanchor
  refine ⟨_, hanchor, fun o ho axis => ?_, ?_⟩
  · rw [Box.sub_lo_add]
    exact Box.index_of_mem (h o ho) axis
  · rw [readWindow?_eq_ok s g h]
    refine congrArg Except.ok (evaluate_congr s _ fun o _ => ?_)
    rw [Box.sub_lo_add, Box.lo_add_sub_lo]

/-- Around a position at most one voxel outside a box, the reads stay within the box expanded by
one more than the radius. -/
theorem readsWithin_expand (s : Sampler) (g : Grid V k) {b : Box} {p : Vec3 K}
    (hp : Within (b.expand 1) p) :
    s.ReadsWithin g (b.expand (s.radius + 1)) (p - (b.expand (s.radius + 1)).lo.toScalars) := by
  refine readsWithin_of_stencil g fun o ho => ?_
  rw [← Box.expand_expand]
  exact mem_expand_of_stencil s hp ho

/-- **Windows hold every read.** What a pass reads for a voxel of a region, also at a position less
than one voxel off, lies in the window of the region. What is read for a single sample, also at a
position that is rounded within one voxel of its floor, lies in the window around the floor. -/
theorem reads_stay_within (s : Sampler) (source : Grid V k) :
    (∀ (t : Traversal K k) (inv : Matrix4 K), t.sampler = s → t.resampler.inverse = some inv →
      ∀ region : Box, ∃ window, t.windowBox? region = .ok window ∧
        ∀ y ∈ region, ∀ e : Vec3 K, (∀ axis, |e.get axis| < 1) →
          s.ReadsWithin source window (inv.apply y.toScalars + e - window.lo.toScalars)) ∧
    ∀ p : Vec3 K,
      let floor := p.map Int.floor
      let window := s.neighbourhood floor
      s.readGrid? source p = s.readWindow? (source.window window) (p - window.lo.toScalars) ∧
        s.ReadsWithin source window (p - window.lo.toScalars) ∧
        ∀ q : Vec3 K, (∀ axis, |q.get axis - floor.get axis| ≤ 1) →
          s.ReadsWithin source window (q - window.lo.toScalars) := by
  constructor
  · rintro t inv rfl hinverse region
    refine ⟨_, Traversal.windowBox?_eq_ok hinverse region, fun y hy e he => ?_⟩
    have hposition := (Traversal.within_imageBox inv hy).displace he
    exact readsWithin_expand t.sampler source hposition
  · intro p floor window
    have hnear : ∀ q : Vec3 K, (∀ axis, |q.get axis - floor.get axis| ≤ 1) →
        s.ReadsWithin source window (q - window.lo.toScalars) := fun q hq =>
      readsWithin_expand s source (within_of_near hq)
    exact ⟨rfl, hnear p (abs_sub_floor_le p), hnear⟩

/-- A region left of the origin, sheared and shrunk, whose positions are off by nine tenths, and a
position just below a voxel that is rounded up to it. -/
theorem reads_stay_within_of_shear :
    let source : Grid Int32 3 := (Grid.empty 0).fill (Box.ofBlock 3 ⟨-1, 0, 0⟩) ⟨7, true⟩
    let inv : Matrix4 ℚ :=
      .affine ⟨⟨1 / 3, -1 / 2, 0⟩, ⟨0, 1 / 2, 0⟩, ⟨0, 0, -1⟩⟩ ⟨1 / 4, -7 / 3, 0⟩
    let r : Resampler ℚ := ⟨.scaling ⟨1, 1, 1⟩, some inv, true, true, .ok (.int 1), none⟩
    let t : Traversal ℚ 3 := ⟨r, .quadratic, .ideal⟩
    let region : Box := ⟨⟨-9, -4, 2⟩, ⟨-2, 3, 5⟩⟩
    let e : Vec3 ℚ := ⟨9 / 10, -9 / 10, 9 / 10⟩
    let p : Vec3 ℚ := ⟨-1 / 1000, 7 / 2, 0⟩
    let q : Vec3 ℚ := ⟨0, 4, 0⟩
    let around := Sampler.quadratic.neighbourhood ⟨-1, 3, 0⟩
    (∃ window, t.windowBox? region = .ok window ∧ ∀ y ∈ region,
      Sampler.quadratic.ReadsWithin source window
        (inv.apply y.toScalars + e - window.lo.toScalars)) ∧
    p.map Int.floor = ⟨-1, 3, 0⟩ ∧
    Sampler.quadratic.ReadsWithin source around (p - around.lo.toScalars) ∧
    Sampler.quadratic.ReadsWithin source around (q - around.lo.toScalars) := by
  intro source inv r t region e p q around
  have he : ∀ axis, |e.get axis| < 1 := by
    intro axis
    cases axis <;> simp only [e, Vec3.get] <;> norm_num [abs_lt]
  obtain ⟨hregions, hpositions⟩ := reads_stay_within (K := ℚ) .quadratic source
  obtain ⟨window, hwindow, hreads⟩ := hregions t inv rfl rfl region
  have hfloor : p.map Int.floor = ⟨-1, 3, 0⟩ := by decide +kernel
  obtain ⟨-, hp, hnear⟩ := hpositions p
  rw [hfloor] at hp hnear
  have hq : ∀ axis, |q.get axis - ((⟨-1, 3, 0⟩ : Coord).get axis : ℚ)| ≤ 1 := by
    intro axis
    cases axis <;> simp only [q, Vec3.get] <;> norm_num
  exact ⟨⟨window, hwindow, fun y hy => hreads y hy e he⟩, hfloor, hp, hnear q hq⟩

end Sampler

end SparseVoxel

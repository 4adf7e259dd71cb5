import SparseVoxel.Proofs.Affine.Image
import SparseVoxel.Proofs.Grid.Window
import SparseVoxel.Proofs.Sampler.Blend

/-!
# Sampling as a function of the view of a grid

In exact arithmetic a sample is a function of what is read at the voxels of the stencil:
`Sampler.sampleAt` evaluates that function on a view of a grid, without any window. Reading from a
window gives the same as long as the stencil lies in the window (`readWindow?_of_holds`, and
`readWindow?_eq_ok` for the window of a grid), and reading from a grid always does
(`readGrid?_eq_ok`).

The stencil of a position between the corners of a box lies in the box expanded by the radius of
the sampler (`mem_expand_of_stencil`).
-/

namespace SparseVoxel

/-- A window that holds, at the offset of each voxel of a box from the least corner, the state that
is read there. -/
def Window.Holds {V : Type} (w : Window V) (read : Coord → Voxel V) (box : Box) : Prop :=
  ∀ c ∈ box, w.cell? (c - box.lo) = some (read c)

namespace Sampler

variable {K : Type} [Field K] [LinearOrder K] [FloorRing K]

/-! ## Base voxels -/

/-- The voxel nearest to a position, an exact half going up. -/
def nearest (p : Vec3 K) : Coord :=
  p.map fun a => ⌊a + 1 / 2⌋

/-- The base voxel of a position. -/
def baseOf (s : Sampler) (p : Vec3 K) : Coord :=
  match s with
  | .point | .quadratic => nearest p
  | .box => p.map Int.floor

theorem anchor?_eq_ok (s : Sampler) (p : Vec3 K) :
    s.anchor? p = .ok ⟨s.baseOf p, p - (s.baseOf p).toScalars⟩ := by
  unfold anchor? baseOf nearest
  rw [← Exact.half_eq]
  cases s <;> rfl

theorem get_baseOf (s : Sampler) (p : Vec3 K) (axis : Axis) :
    (s.baseOf p).get axis = ⌊p.get axis⌋ ∨ (s.baseOf p).get axis = ⌊p.get axis + 1 / 2⌋ := by
  unfold baseOf nearest
  split
  · exact Or.inr (Vec3.get_map _ _ _)
  · exact Or.inr (Vec3.get_map _ _ _)
  · exact Or.inl (Vec3.get_map _ _ _)

/-! ## Samples of a view -/

variable {V : Type} [VoxelValue K V]

/-- The sample at a position, given what is read at each voxel. -/
def sampleAt (s : Sampler) (read : Coord → Voxel V) (p : Vec3 K) : Voxel V :=
  s.evaluate (p - (s.baseOf p).toScalars) fun o => read (s.baseOf p + o)

theorem sampleAt_point (read : Coord → Voxel V) (p : Vec3 K) :
    sampleAt .point read p = read (nearest p) := by
  show read (nearest p + ⟨0, 0, 0⟩) = read (nearest p)
  congr 1
  exact Vec3.ext (Int.add_zero _) (Int.add_zero _) (Int.add_zero _)

/-- A sample depends only on what is read at the voxels of the stencil. -/
theorem evaluate_congr (s : Sampler) (rest : Vec3 K) {f g : Coord → Voxel V}
    (h : ∀ o ∈ s.stencil, f o = g o) : s.evaluate rest f = s.evaluate rest g := by
  have hon : (s.stencil.any fun o => s.touches rest o && (f o).active) =
      s.stencil.any fun o => s.touches rest o && (g o).active := by
    rw [Bool.eq_iff_iff, List.any_eq_true, List.any_eq_true]
    exact exists_congr fun o => and_congr_right fun ho => by rw [h o ho]
  cases s with
  | point => exact h _ (by decide)
  | box =>
    refine congrArg₂ Voxel.mk (congrArg VoxelValue.blend (funext fun channel => ?_)) hon
    simp (disch := decide) only [Blend.trilinear, h]
  | quadratic =>
    refine congrArg₂ Voxel.mk (congrArg VoxelValue.blend (funext fun channel => ?_)) hon
    simp (disch := decide) only [Blend.triquadratic, h]

/-! ## Windows -/

theorem sub_toScalars_sub (p : Vec3 K) (a c : Coord) :
    p - (c.toScalars : Vec3 K) - (a - c).toScalars = p - a.toScalars := by
  have haxis : ∀ (x : K) (m n : Int), x - (n : K) - ((m - n : Int) : K) = x - (m : K) := by
    intro x m n
    rw [Int.cast_sub]
    ring
  exact Vec3.ext (haxis _ _ _) (haxis _ _ _) (haxis _ _ _)

variable [IsStrictOrderedRing K]

theorem baseOf_sub (s : Sampler) (p : Vec3 K) (c : Coord) :
    s.baseOf (p - c.toScalars) = s.baseOf p - c := by
  have hfloor : ∀ (a : K) (n : Int), ⌊a - n⌋ = ⌊a⌋ - n := Int.floor_sub_intCast
  have hnearest : ∀ (a : K) (n : Int), ⌊a - n + 1 / 2⌋ = ⌊a + 1 / 2⌋ - n := by
    intro a n
    rw [← hfloor, sub_add_eq_add_sub]
  unfold baseOf nearest
  cases s with
  | point => exact Vec3.ext (hnearest _ _) (hnearest _ _) (hnearest _ _)
  | box => exact Vec3.ext (hfloor _ _) (hfloor _ _) (hfloor _ _)
  | quadratic => exact Vec3.ext (hnearest _ _) (hnearest _ _) (hnearest _ _)

/-- A window that holds the stencil of a position gives the sample there. -/
theorem readWindow?_of_holds (s : Sampler) {w : Window V} {read : Coord → Voxel V} {box : Box}
    {p : Vec3 K} (hw : w.Holds read box) (h : ∀ o ∈ s.stencil, s.baseOf p + o ∈ box) :
    s.readWindow? w (p - box.lo.toScalars) = .ok (s.sampleAt read p) := by
  have hcell : ∀ o ∈ s.stencil,
      w.cell? (s.baseOf p - box.lo + o) = some (read (s.baseOf p + o)) := by
    intro o ho
    rw [Box.sub_lo_add, hw _ (h o ho)]
  have hall : (s.stencil.all fun o => (w.cell? (s.baseOf p - box.lo + o)).isSome) = true := by
    refine List.all_eq_true.mpr fun o ho => ?_
    rw [hcell o ho, Option.isSome_some]
  unfold readWindow?
  rw [anchor?_eq_ok, baseOf_sub, sub_toScalars_sub]
  refine (if_pos hall).trans (congrArg Except.ok (evaluate_congr s _ fun o ho => ?_))
  rw [hcell o ho, Option.getD_some]

theorem readWindow?_eq_ok {k : Nat} (s : Sampler) (g : Grid V k) {box : Box} {p : Vec3 K}
    (h : ∀ o ∈ s.stencil, s.baseOf p + o ∈ box) :
    s.readWindow? (g.window box) (p - box.lo.toScalars) = .ok (s.sampleAt g.read p) :=
  s.readWindow?_of_holds (fun _ hc => g.cell?_window hc) h

/-! ## Where the stencil lies -/

theorem stencil_get {s : Sampler} {o : Coord} (h : o ∈ s.stencil) (axis : Axis) :
    (s = .point → o.get axis = 0) ∧ (s = .box → 0 ≤ o.get axis) ∧
      -1 ≤ o.get axis ∧ o.get axis ≤ 1 := by
  cases s with
  | point =>
    rw [List.mem_singleton.mp h]
    cases axis <;> decide
  | box =>
    have hbox := Box.mem_iff_get.mp (Box.mem_coords.mp h) axis
    cases axis <;> simp only [Vec3.get] at hbox ⊢ <;>
      exact ⟨fun hs => absurd hs (by decide), fun _ => hbox.1, by omega, hbox.2⟩
  | quadratic =>
    have hbox := Box.mem_iff_get.mp (Box.mem_coords.mp h) axis
    cases axis <;> simp only [Vec3.get] at hbox ⊢ <;>
      exact ⟨fun hs => absurd hs (by decide), fun hs => absurd hs (by decide), hbox⟩

theorem floor_between {lo hi : Int} {a : K} (hlo : (lo : K) ≤ a) (hhi : a ≤ hi) :
    lo ≤ ⌊a⌋ ∧ ⌊a⌋ ≤ hi :=
  ⟨Int.le_floor.mpr hlo, Int.cast_le.mp ((Int.floor_le a).trans hhi)⟩

theorem nearest_between {lo hi : Int} {a : K} (hlo : (lo : K) ≤ a) (hhi : a ≤ hi) :
    lo ≤ ⌊a + 1 / 2⌋ ∧ ⌊a + 1 / 2⌋ ≤ hi := by
  refine ⟨Int.le_floor.mpr (by linarith), ?_⟩
  have hlt : ⌊a + 1 / 2⌋ < hi + 1 := Int.floor_lt.mpr (by push_cast; linarith)
  omega

/-- A position between the corners of a box of voxels. -/
def Within (b : Box) (p : Vec3 K) : Prop :=
  ∀ axis, (b.lo.get axis : K) ≤ p.get axis ∧ p.get axis ≤ b.hi.get axis

theorem baseOf_mem (s : Sampler) {b : Box} {p : Vec3 K} (hp : Within b p) : s.baseOf p ∈ b := by
  refine Box.mem_iff_get.mpr fun axis => ?_
  rcases s.get_baseOf p axis with h | h
  · rw [h]
    exact floor_between (hp axis).1 (hp axis).2
  · rw [h]
    exact nearest_between (hp axis).1 (hp axis).2

theorem nearest_mem {b : Box} {p : Vec3 K} (hp : Within b p) : nearest p ∈ b :=
  baseOf_mem .point hp

theorem mem_expand_of_stencil (s : Sampler) {b : Box} {p : Vec3 K} (hp : Within b p) {o : Coord}
    (ho : o ∈ s.stencil) : s.baseOf p + o ∈ b.expand s.radius := by
  obtain ⟨⟨hx, hx'⟩, ⟨hy, hy'⟩, hz, hz'⟩ := baseOf_mem s hp
  have hox := stencil_get ho .x
  have hoy := stencil_get ho .y
  have hoz := stencil_get ho .z
  simp only [Vec3.get] at hox hoy hoz
  have hradius : s = .point ∨ (1 : Int) ≤ s.radius := by
    cases s
    · exact Or.inl rfl
    · exact Or.inr (by decide)
    · exact Or.inr (by decide)
  rcases hradius with rfl | hradius
  · refine ⟨⟨?_, ?_⟩, ⟨?_, ?_⟩, ?_, ?_⟩ <;>
      simp only [Box.expand, Vec3.map, radius, Vec3.add_x, Vec3.add_y, Vec3.add_z, hox.1 rfl,
        hoy.1 rfl, hoz.1 rfl] <;> omega
  · refine ⟨⟨?_, ?_⟩, ⟨?_, ?_⟩, ?_, ?_⟩ <;>
      simp only [Box.expand, Vec3.map, Vec3.add_x, Vec3.add_y, Vec3.add_z] <;> omega

theorem readGrid?_eq_ok {k : Nat} (s : Sampler) (g : Grid V k) (p : Vec3 K) :
    s.readGrid? g p = .ok (s.sampleAt g.read p) := by
  have hcorner : Within ⟨p.map Int.floor, (p.map Int.floor).map (· + 1)⟩ p := by
    intro axis
    rw [Vec3.get_map, Vec3.get_map, Vec3.get_map]
    refine ⟨Int.floor_le _, ?_⟩
    push_cast
    exact (Int.lt_floor_add_one _).le
  refine readWindow?_eq_ok s g fun o ho => ?_
  obtain ⟨hx, hy, hz⟩ := mem_expand_of_stencil s hcorner ho
  simp only [Box.expand, Vec3.map] at hx hy hz
  refine ⟨⟨?_, ?_⟩, ⟨?_, ?_⟩, ?_, ?_⟩ <;> simp only [neighbourhood, Box.expand, Vec3.map] <;> omega

end Sampler

end SparseVoxel

import SparseVoxel.Proofs.Resampler.Pass
import SparseVoxel.Proofs.Grid.Count
import SparseVoxel.Proofs.Matrix.Lattice
import SparseVoxel.Proofs.Sampler.Lattice

/-!
# Passes by maps of the lattice onto itself

Where the map takes voxels to voxels, every position that is sampled is a voxel and is read as it
is, by each sampler and whether or not tiles are copied. A pass into a blank destination therefore
moves voxels without changing them, and it loses no active one, because the image of the box around
the active voxels holds their images: this is `Resampler.transform_ofLattice`.
-/

namespace SparseVoxel

variable {K : Type} [Field K] [LinearOrder K] [IsStrictOrderedRing K] [FloorRing K]

/-- The image of a voxel of a box lies in the image of the box, if it is a voxel. -/
theorem Affine.mem_imageBox_of_apply_eq {m : Matrix4 K} {b : Box} {x y : Coord} (hx : x ∈ b)
    (h : m.apply x.toScalars = y.toScalars) : y ∈ imageBox m b := by
  have hwithin : Sampler.Within (imageBox m b) (y.toScalars : Vec3 K) := by
    rw [← h]
    exact imageBox_of_mem m hx
  have hmem := Sampler.nearest_mem hwithin
  rwa [Sampler.nearest_toScalars] at hmem

namespace Resampler

open Matrix4 (ofLattice latticeImage)

variable {V : Type} {k m : Nat}

/-- The reach of a pass holds the image of every active voxel. -/
theorem reached_of_active {forward : Matrix4 K} {source : Grid V k} {stats : Stats} {n : Int}
    (hreach : stats.reach = source.activeBox?.map fun active =>
      (Affine.imageBox forward active).expand n) (hn : 0 ≤ n) {x y : Coord}
    (hx : (source.read x).active = true) (hy : forward.apply x.toScalars = y.toScalars) :
    stats.Reached y := by
  obtain ⟨active, hactive, hmem⟩ := Grid.mem_activeBox? hx
  rw [hactive] at hreach
  exact ⟨_, hreach, Box.mem_expand hn (Affine.mem_imageBox_of_apply_eq hmem hy)⟩

variable [BEq V] [LawfulBEq V] [VoxelValue K V] [ExactValue K V]

/-- Over a blank destination a pass leaves the voxel that is looked at, or nothing. -/
theorem read_of_sampled_voxel {source : Grid V k} {sampler : Sampler} {inv : Matrix4 K}
    {x y : Coord} (hx : inv.apply y.toScalars = x.toScalars) {old new : Voxel V}
    (hold : old = source.unset)
    (h : new = Traversal.written source.background
        (Traversal.sampleOf sampler inv source y) old ∨
      sampler = .quadratic ∧ new = source.read (Sampler.nearest (inv.apply y.toScalars))) :
    new = source.read x := by
  rw [Traversal.sampleOf, hx, Sampler.sampleAt_toScalars, Sampler.nearest_toScalars] at h
  rcases h with h | ⟨-, h⟩
  · rw [h, Traversal.written]
    split
    · rfl
    · next hworth =>
      have hunset : source.isUnset (source.read x) = true := by
        rw [Traversal.worth_eq_not_isUnset, Bool.not_eq_true, Bool.not_eq_false'] at hworth
        exact hworth
      rw [hold]
      exact (Voxel.eq_of_same (Or.inr hunset)).symm
  · exact h

variable [Sized V]

/-- **A map of the lattice onto itself is lossless.** A pass into a blank destination moves every
voxel of the reach from the voxel that the inverse gives, it leaves all other voxels blank, and the
active voxels of the destination are the images of those of the source. -/
theorem transform_ofLattice (o : Options K) {margin : Int} (hmargin : o.margin = .ok (.int margin))
    (n : Matrix3 Int) (hdet : n.toMatrix.det = 1 ∨ n.toMatrix.det = -1) (t : Coord)
    (sampler : Sampler) (source : Grid V k) (dest : Grid V m)
    (hbackground : dest.background = source.background) (hblank : ∀ y, dest.read y = dest.unset) :
    ∃ r inv stats after, ofMatrix? o (ofLattice n t) = .ok r ∧ r.inverse = some inv ∧
      r.transform .ideal sampler (.same V) (fun _ => source) dest = .ok stats after ∧
      stats.reach = source.activeBox?.map (fun active =>
        (Affine.imageBox (ofLattice n t : Matrix4 K) active).expand
          (max (sampler.radius : Int) margin)) ∧
      (∀ y, ∃ x : Coord, inv.apply y.toScalars = x.toScalars ∧
        (stats.Reached y → after.read y = source.read x) ∧
        (¬ stats.Reached y → after.read y = dest.unset)) ∧
      (∀ y v, after.read y = ⟨v, true⟩ ↔ ∃ x : Coord, source.read x = ⟨v, true⟩ ∧
        (ofLattice n t : Matrix4 K).apply x.toScalars = y.toScalars) ∧
      after.activeCount = source.activeCount := by
  have hunit : IsUnit n.toMatrix.det := Int.isUnit_iff.mpr hdet
  obtain ⟨inv, hinverse, hback⟩ := Matrix4.invert?_ofLattice (K := K) hunit t
  have hbijective := Matrix4.latticeImage_bijective hunit t
  let r : Resampler K := ⟨ofLattice n t, some inv, o.copyTiles, o.parallel, o.margin, none⟩
  have hr : ofMatrix? o (ofLattice n t) = .ok r := by
    rw [ofMatrix?, hinverse]
    exact if_pos (Matrix4.isAffine_affine _ _)
  obtain ⟨stats, after, hpass, hreach, hread⟩ :=
    exists_transform (r := r) rfl hmargin sampler source dest hbackground
  have hunset : dest.unset = source.unset := congrArg (Voxel.mk · false) hbackground
  have hmoved : ∀ x, stats.Reached (latticeImage n t x) →
      after.read (latticeImage n t x) = source.read x := by
    intro x hx
    exact read_of_sampled_voxel (hback x) ((hblank _).trans hunset) ((hread _).2 hx)
  have hactive := Grid.read_active_iff_of_moved (g := source) (h := after) hbijective fun x => by
    by_cases hx : stats.Reached (latticeImage n t x)
    · exact Or.inl (hmoved x hx)
    · -- What is not reached was not active, and it is blank as it was.
      refine Or.inr ⟨Bool.eq_false_iff.mpr fun hon => hx ?_, ?_⟩
      · exact reached_of_active hreach ((Int.natCast_nonneg _).trans (le_max_left _ _)) hon
          (Matrix4.apply_ofLattice n t x)
      · rw [(hread _).1 hx, hblank]
        rfl
  refine ⟨r, inv, stats, after, hr, rfl, hpass, hreach, fun y => ?_, fun y v => ?_, ?_⟩
  · obtain ⟨x, rfl⟩ := hbijective.surjective y
    refine ⟨x, hback x, hmoved x, fun hout => ?_⟩
    rw [(hread _).1 hout, hblank]
  · rw [hactive]
    refine exists_congr fun x => and_congr_right fun _ => ?_
    rw [Matrix4.apply_ofLattice, Coord.toScalars_injective.eq_iff]
  · exact Grid.activeCount_eq_of_image hbijective.injective hactive

/-- A shear with a reflection, by a pass that copies tiles and blends three voxels on each axis. -/
theorem transform_ofLattice_of_shear :
    let n : Matrix3 Int := ⟨⟨⟨0, -1, 0⟩, ⟨1, 2, 0⟩, ⟨0, 0, -1⟩⟩⟩
    let t : Coord := ⟨5, -3, 1⟩
    let o : Options ℚ := ⟨true, true, .ok (.int 1), .ok 0⟩
    let source : Grid Int32 3 := ((Grid.empty 0).fill (Box.ofBlock 3 ⟨0, -1, 2⟩) ⟨7, true⟩).write
      ⟨1, -2, 3⟩ ⟨-4, true⟩
    let dest : Grid Int32 2 := .empty 0
    (n.toMatrix.det = 1 ∨ n.toMatrix.det = -1) ∧ (∀ y, dest.read y = dest.unset) ∧
      ∃ r inv stats after, ofMatrix? o (ofLattice n t) = .ok r ∧ r.inverse = some inv ∧
        r.transform .ideal .quadratic (.same Int32) (fun _ => source) dest = .ok stats after ∧
        stats.reach = source.activeBox?.map (fun active =>
          (Affine.imageBox (ofLattice n t : Matrix4 ℚ) active).expand
            (max (Sampler.quadratic.radius : Int) 1)) ∧
        (∀ y, ∃ x : Coord, inv.apply y.toScalars = x.toScalars ∧
          (stats.Reached y → after.read y = source.read x) ∧
          (¬ stats.Reached y → after.read y = dest.unset)) ∧
        (∀ y v, after.read y = ⟨v, true⟩ ↔ ∃ x : Coord, source.read x = ⟨v, true⟩ ∧
          (ofLattice n t : Matrix4 ℚ).apply x.toScalars = y.toScalars) ∧
        after.activeCount = source.activeCount := by
  intro n t o source dest
  have hdet : n.toMatrix.det = 1 ∨ n.toMatrix.det = -1 := by
    right
    simp [n, Matrix.det_fin_three, Matrix3.toMatrix]
  have hblank : ∀ y, dest.read y = dest.unset := Grid.read_clear dest
  have hbackground : dest.background = source.background := by decide
  exact ⟨hdet, hblank, transform_ofLattice o rfl n hdet t .quadratic source dest hbackground hblank⟩

end Resampler

end SparseVoxel

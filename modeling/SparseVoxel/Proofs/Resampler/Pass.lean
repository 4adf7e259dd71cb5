import SparseVoxel.Proofs.Resampler.Tiles

/-!
# What a pass leaves, whether or not tiles are copied

In exact arithmetic a pass between two grids of one value type and with one background ends, and
it leaves in the reach of the map what sampling would write, or else the nearest voxel of the
source where three voxels are blended on each axis (`exists_transform`). Without an active voxel
there is no reach and nothing changes.
-/

namespace SparseVoxel

/-- A voxel is in the region that a pass took apart. -/
def Stats.Reached (s : Stats) (y : Coord) : Prop :=
  ∃ reach, s.reach = some reach ∧ y ∈ reach

instance (s : Stats) (y : Coord) : Decidable (s.Reached y) :=
  match h : s.reach with
  | none => isFalse fun ⟨_, hreach, _⟩ => nomatch h.symm.trans hreach
  | some reach => decidable_of_iff (y ∈ reach)
    ⟨fun hy => ⟨reach, h, hy⟩, fun ⟨_, hreach, hy⟩ => Option.some.inj (h.symm.trans hreach) ▸ hy⟩

variable {K : Type} [Field K] [LinearOrder K] [IsStrictOrderedRing K] [FloorRing K]
variable {V : Type} {k m : Nat} [BEq V] [LawfulBEq V] [VoxelValue K V] [ExactValue K V]

namespace Traversal

/-- What is left of a voxel in the reach of a map, by a pass that may copy tiles. -/
theorem settled_cases {t : Traversal K k} {inv : Matrix4 K} {source : Grid V k} {region : Box}
    {y : Coord} (hy : y ∈ region) (old : Voxel V) :
    settled t.sampler inv source (t.treats inv source region) y old =
        written source.background (sampleOf t.sampler inv source y) old ∨
      t.sampler = .quadratic ∧
        settled t.sampler inv source (t.treats inv source region) y old =
          source.read (Sampler.nearest (inv.apply y.toScalars)) := by
  cases htiles : t.resampler.copyTiles with
  | false => exact Or.inl (settled_eq_written hy (treats_ne_fill htiles) old)
  | true =>
    have hsame : t.withTiles true = t := by
      unfold withTiles
      rw [← htiles]
    rw [← hsame]
    exact settled_withTiles (t := t) hy old

end Traversal

namespace Resampler

variable [Sized V]

theorem exists_transform {r : Resampler K} {inv : Matrix4 K} (hinverse : r.inverse = some inv)
    {margin : Int} (hmargin : r.margin = .ok (.int margin)) (sampler : Sampler) (source : Grid V k)
    (dest : Grid V m) (hbackground : dest.background = source.background) :
    ∃ stats after,
      r.transform .ideal sampler (.same V) (fun _ => source) dest = .ok stats after ∧
      stats.reach = source.activeBox?.map (fun active =>
        (Affine.imageBox r.forward active).expand (max (sampler.radius : Int) margin)) ∧
      ∀ y, (¬ stats.Reached y → after.read y = dest.read y) ∧
        (stats.Reached y →
          after.read y = Traversal.written source.background
              (Traversal.sampleOf sampler inv source y) (dest.read y) ∨
            sampler = .quadratic ∧
              after.read y = source.read (Sampler.nearest (inv.apply y.toScalars))) := by
  cases hactive : source.activeBox? with
  | none =>
    refine ⟨.none, dest, transform_of_inactive r sampler (.same V) hactive, rfl, fun y => ?_⟩
    exact ⟨fun _ => rfl, fun ⟨reach, hreach, _⟩ => nomatch hreach⟩
  | some active =>
    obtain ⟨reach, p, after, hreach, hne, hpass, hreaches⟩ :=
      transform_eq_ok hinverse hmargin sampler hbackground hactive
    have hconfined := Traversal.Stage.confined_of_reaches (.of_ideal rfl reach) hne hreaches
    cases Except.ok.inj (hreach.symm.trans (reach?_eq hmargin active sampler.radius))
    refine ⟨_, after, hpass, rfl, fun y => ⟨fun hy => ?_, fun hy => ?_⟩⟩
    · exact hconfined.frame y fun hmem => hy ⟨_, rfl, hmem⟩
    · obtain ⟨_, hsame, hmem⟩ := hy
      cases hsame
      obtain ⟨region, hregion, hread⟩ :=
        Traversal.exists_settled rfl hinverse hbackground hne hreaches hmem
      rw [hread]
      exact Traversal.settled_cases (t := ⟨r, sampler, .ideal⟩) hregion (dest.read y)

end Resampler

end SparseVoxel

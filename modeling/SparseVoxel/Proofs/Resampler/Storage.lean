import SparseVoxel.Proofs.Resampler.Plan
import SparseVoxel.Proofs.Resampler.Pass

/-!
# Passes do not depend on how the source is stored

Two sources that read the same may be stored in blocks of different sizes, with leaves in the one
where the other has tiles or nothing. The reach of a map is the same for both, but it is taken apart
on different block boundaries, so a voxel may lie in a region that is skipped in one pass and in one
that is sampled in the other.

In exact arithmetic every region has a plan (`exists_plan?`), and a task leaves at each voxel of its
region the sample of that voxel, or nothing is written there and the sample is that of unset voxels.
If sampling would not write such a sample, both passes leave the same
(`Resampler.transform_of_same_reads`). A destination with another background tells the passes apart
(`Resampler.transform_storage_matters`): it is left alone where a region is skipped, and gets the
background of the source where it is sampled.
-/

namespace SparseVoxel.Traversal

variable {K : Type} [Field K] [LinearOrder K] [FloorRing K] {V W : Type} {k m : Nat} [BEq V]
variable [VoxelValue K V]

/-- What moving a sample leaves over an old state. -/
def moved (seen : V) (convert : V → W) (v : Voxel V) (old : Voxel W) : Voxel W :=
  if Transfer.worth seen v = true then ⟨convert v.value, v.active⟩ else old

omit [LinearOrder K] [FloorRing K] [VoxelValue K V] in
theorem moved_unset (source : Grid V k) (seen : V) (convert : V → W) (old : Voxel W) :
    moved seen convert source.unset old =
      if (source.background == seen) = true then old else ⟨convert source.background, false⟩ := by
  show (if (false || !(source.background == seen)) = true then _ else old) = _
  cases source.background == seen <;> rfl

/-- A task leaves the sample at a voxel, or it writes nothing there and the sample is that of
unset voxels. -/
def Samples (s : Sampler) (inv : Matrix4 K) (source : Grid V k) (seen : V) (convert : V → W)
    (task : Task W) (y : Coord) : Prop :=
  (∀ old, task.settle y old = moved seen convert (sampleOf s inv source y) old) ∨
    sampleOf s inv source y = source.unset ∧ ∀ old, task.settle y old = old

variable [IsStrictOrderedRing K] [Sized V] {t : Traversal K k} {inv : Matrix4 K}
variable {source : Grid V k} {transfer : Transfer V W} {background : W} {seen : V} {convert : V → W}

/-- Sampling a region is not refused, and it leaves the sample at every voxel. -/
theorem effect?_sample (hmachine : t.machine = .ideal) (hinverse : t.resampler.inverse = some inv)
    (source : Grid V k) (htransfer : transfer.Pointwise background seen convert) (r : Region) :
    ∃ effect, t.effect? transfer source background r .sample = .ok effect ∧
      ∀ y ∈ r.box, ∀ old, Task.settle ⟨r, effect⟩ y old =
        moved seen convert (sampleOf t.sampler inv source y) old := by
  rw [effect?, samples?_eq_ok hmachine hinverse]
  simp only [bind, Except.bind, writes?_eq htransfer]
  refine ⟨_, rfl, fun y hy old => ?_⟩
  show overwrite _ y old = _
  rw [List.filter_map, List.map_map]
  refine (overwrite_map ((Box.nodup_coords r.box).filter _) _ y old).trans ?_
  simp only [moved, List.mem_filter, Box.mem_coords, hy, true_and, Function.comp_apply]

variable [LawfulBEq V] [ExactValue K V]

/-- Every region has a plan, whose tasks sample the voxels of the region. -/
theorem exists_plan? (hmachine : t.machine = .ideal) (hinverse : t.resampler.inverse = some inv)
    (htiles : t.resampler.copyTiles = false) (source : Grid V k)
    (htransfer : transfer.Pointwise background seen convert) (r : Region) :
    ∃ tasks, t.plan? transfer source background r = .ok tasks ∧
      ∀ task ∈ tasks, ∀ y ∈ task.region.box, Samples t.sampler inv source seen convert task y := by
  induction hvolume : r.volume using Nat.strongRecOn generalizing r with
  | ind n ih =>
    subst hvolume
    rcases action?_cases hinverse source r with ⟨halves, haction⟩ | haction
    · have hlower := halves.lower.volume_pos
      have hupper := halves.upper.volume_pos
      have hsum := halves.volume_eq
      obtain ⟨upper, hplan, hsamples⟩ := ih halves.upper.volume (by omega) halves.upper rfl
      obtain ⟨lower, hplan', hsamples'⟩ := ih halves.lower.volume (by omega) halves.lower rfl
      refine ⟨upper ++ lower, ?_, fun task htask => ?_⟩
      · rw [plan?_of_split haction, hplan, hplan']
        rfl
      · exact (List.mem_append.mp htask).elim (hsamples task) (hsamples' task)
    · rw [plan?_of_finish haction]
      cases htreats : t.treats inv source r.box with
      | skip =>
        refine ⟨_, rfl, fun task htask y hy => Or.inr ?_⟩
        cases List.mem_singleton.mp htask
        exact ⟨Sampler.sampleAt_of_uniform_expand t.sampler (within_imageBox inv hy)
          (read_of_skip htreats), fun _ => rfl⟩
      | fill state => exact absurd htreats (treats_ne_fill htiles state)
      | sample =>
        obtain ⟨effect, heffect, hsettle⟩ :=
          effect?_sample hmachine hinverse source htransfer r
        rw [heffect]
        refine ⟨_, rfl, fun task htask y hy => Or.inl ?_⟩
        cases List.mem_singleton.mp htask
        exact hsettle y hy

end SparseVoxel.Traversal

/-! ## Whole passes -/

namespace SparseVoxel.Resampler

variable {K : Type} [Field K] [LinearOrder K] [IsStrictOrderedRing K] [FloorRing K]
variable {V W : Type} {k m : Nat} [BEq V] [LawfulBEq V] [VoxelValue K V] [ExactValue K V] [Sized V]
variable [BEq W] [LawfulBEq W] [Sized W]

/-- A pass ends, and in its reach it leaves the samples, except that a sample of unset voxels may
not have been written. -/
theorem exists_transform_samples {r : Resampler K} {inv : Matrix4 K}
    (hinverse : r.inverse = some inv) {margin : Int} (hmargin : r.margin = .ok (.int margin))
    (htiles : r.copyTiles = false) (sampler : Sampler) {transfer : Transfer V W}
    (source : Grid V k) (dest : Grid W m) {seen : V} {convert : V → W}
    (htransfer : transfer.Pointwise dest.background seen convert) :
    ∃ stats after,
      r.transform .ideal sampler transfer (fun _ => source) dest = .ok stats after ∧
      stats.reach = source.activeBox?.map (fun active =>
        (Affine.imageBox r.forward active).expand (max (sampler.radius : Int) margin)) ∧
      ∀ y, (¬ stats.Reached y → after.read y = dest.read y) ∧
        (stats.Reached y →
          after.read y = Traversal.moved seen convert (Traversal.sampleOf sampler inv source y)
            (dest.read y) ∨
          Traversal.sampleOf sampler inv source y = source.unset ∧
            after.read y = dest.read y) := by
  cases hactive : source.activeBox? with
  | none =>
    refine ⟨.none, dest, transform_of_inactive r sampler transfer hactive, rfl, fun y => ?_⟩
    exact ⟨fun _ => rfl, fun ⟨reach, hreach, _⟩ => nomatch hreach⟩
  | some active =>
    have hreach := reach?_eq hmargin active sampler.radius
    have hne := nonempty_reach? hmargin hreach
    obtain ⟨tasks, hplan, hsamples⟩ := Traversal.exists_plan? (t := ⟨r, sampler, .ideal⟩)
      rfl hinverse htiles source htransfer ⟨_, hne⟩
    refine ⟨_, _, transform_of_plan? hinverse sampler dest hactive hreach hne hplan, rfl,
      fun y => ?_⟩
    obtain ⟨hout, hin⟩ := Traversal.read_of_plan? rfl hplan dest y
    refine ⟨fun hy => hout fun hmem => hy ⟨_, rfl, hmem⟩, fun hy => ?_⟩
    obtain ⟨_, hsame, hmem⟩ := hy
    cases hsame
    obtain ⟨task, htask, hy, hread⟩ := hin hmem
    rw [hread]
    rcases hsamples task htask y hy with hsettle | ⟨hunset, hsettle⟩
    · exact Or.inl (hsettle _)
    · exact Or.inr ⟨hunset, hsettle _⟩

/-- **How the source is stored matters only to samples of unset voxels.** Two sources that read the
same leave the same at every voxel, unless the destinations have a background that the source's
differs from. Then a voxel whose sample is that of unset voxels may keep its state in one pass and
get the sample in the other. -/
theorem transform_of_same_reads {r : Resampler K} {inv : Matrix4 K}
    (hinverse : r.inverse = some inv) {margin : Int} (hmargin : r.margin = .ok (.int margin))
    (htiles : r.copyTiles = false) (sampler : Sampler) {transfer : Transfer V W} {k' m' : Nat}
    {source : Grid V k} {source' : Grid V k'} (hsource : source'.background = source.background)
    (hreads : ∀ c, source'.read c = source.read c) {dest : Grid W m} {dest' : Grid W m'}
    (hdest : dest'.background = dest.background) (hdestReads : ∀ c, dest'.read c = dest.read c)
    {seen : V} {convert : V → W} (htransfer : transfer.Pointwise dest.background seen convert) :
    ∃ stats after stats' after',
      r.transform .ideal sampler transfer (fun _ => source) dest = .ok stats after ∧
      r.transform .ideal sampler transfer (fun _ => source') dest' = .ok stats' after' ∧
      stats'.reach = stats.reach ∧
      ∀ y, after'.read y = after.read y ∨
        (source.background == seen) = false ∧
        sampler.readGrid? source (inv.apply y.toScalars) = .ok source.unset ∧
        (after.read y = dest.read y ∨ after.read y = ⟨convert source.background, false⟩) ∧
        (after'.read y = dest.read y ∨ after'.read y = ⟨convert source.background, false⟩) := by
  obtain ⟨stats, after, hpass, hreach, hleft⟩ := exists_transform_samples hinverse hmargin htiles
    sampler source dest htransfer
  obtain ⟨stats', after', hpass', hreach', hleft'⟩ := exists_transform_samples hinverse hmargin
    htiles sampler source' dest' (hdest ▸ htransfer)
  have hsame : stats'.reach = stats.reach := by
    rw [hreach, hreach', Grid.activeBox?_congr hreads]
  have hread : source'.read = source.read := funext hreads
  have hunset : source'.unset = source.unset := congrArg (fun b => Voxel.mk b false) hsource
  refine ⟨stats, after, stats', after', hpass, hpass', hsame, fun y => ?_⟩
  have hreached : stats'.Reached y ↔ stats.Reached y := by
    simp only [Stats.Reached, hsame]
  obtain ⟨hout, hin⟩ := hleft y
  obtain ⟨hout', hin'⟩ := hleft' y
  rw [hdestReads] at hout' hin'
  simp only [Traversal.sampleOf, hread, hunset] at hin hin'
  by_cases hy : stats.Reached y
  · specialize hin hy
    specialize hin' (hreached.mpr hy)
    by_cases hs : sampler.sampleAt source.read (inv.apply y.toScalars) = source.unset
    · rw [hs, Traversal.moved_unset] at hin hin'
      by_cases hseen : (source.background == seen) = true
      · -- The sample is not worth writing, so both voxels are as they were.
        left
        rw [if_pos hseen] at hin hin'
        rw [hin.elim id And.right, hin'.elim id And.right]
      · right
        rw [if_neg hseen] at hin hin'
        refine ⟨Bool.eq_false_iff.mpr hseen, ?_, hin.symm.imp_left And.right,
          hin'.symm.imp_left And.right⟩
        exact (Sampler.readGrid?_eq_ok sampler source _).trans (congrArg Except.ok hs)
    · left
      rw [hin.resolve_right fun h => hs h.1, hin'.resolve_right fun h => hs h.1]
  · left
    rw [hout hy, hout' fun hy' => hy (hreached.mp hy')]

/-- Truth values resampled as integers, from blocks of one voxel and from larger ones, into blocks
of two sizes whose background the sources do not have. -/
theorem transform_of_same_reads_of_conversion :
    let source : Grid Bool 0 := ((Grid.empty false).write ⟨0, 0, 0⟩ ⟨true, true⟩).write ⟨2, 0, 0⟩
      ⟨true, true⟩
    let source' : Grid Bool 2 := ((Grid.empty false).write ⟨0, 0, 0⟩ ⟨true, true⟩).write ⟨2, 0, 0⟩
      ⟨true, true⟩
    let dest : Grid Int32 1 := .empty 5
    let dest' : Grid Int32 3 := .empty 5
    let transfer : Transfer Bool Int32 := .between .bool .int32
    let r : Resampler ℚ := ⟨.one, some .one, false, true, .ok (.int 0), none⟩
    ∃ stats after stats' after',
      r.transform .ideal .point transfer (fun _ => source) dest = .ok stats after ∧
      r.transform .ideal .point transfer (fun _ => source') dest' = .ok stats' after' ∧
      stats'.reach = stats.reach ∧
      ∀ y, after'.read y = after.read y ∨
        (source.background == true) = false ∧
        Sampler.readGrid? .point source ((Matrix4.one : Matrix4 ℚ).apply y.toScalars) =
          .ok source.unset ∧
        (after.read y = dest.read y ∨ after.read y = ⟨0, false⟩) ∧
        (after'.read y = dest.read y ∨ after'.read y = ⟨0, false⟩) := by
  intro source source' dest dest' transfer r
  have hreads : ∀ c, source'.read c = source.read c := fun c => by
    simp only [source, source', Grid.read_write]
    rfl
  have htransfer : transfer.Pointwise dest.background true
      (fun b => if b = true then 1 else 0) :=
    Transfer.pointwise_between (s := .bool) (t := .int32) rfl rfl fun v => by cases v <;> rfl
  have hsource : source'.background = source.background := rfl
  have hdest : dest'.background = dest.background := rfl
  have hdestReads : ∀ c, dest'.read c = dest.read c := fun _ => rfl
  exact transform_of_same_reads (r := r) rfl rfl rfl .point hsource hreads hdest hdestReads
    htransfer

/-- A background that the source does not have tells apart how the source is stored: the voxel
between two active ones lies in a region of its own if blocks hold one voxel, and is skipped. -/
theorem transform_storage_matters :
    let source : Grid Int32 0 := ((Grid.empty 0).write ⟨0, 0, 0⟩ ⟨7, true⟩).write ⟨2, 0, 0⟩
      ⟨7, true⟩
    let source' : Grid Int32 2 := ((Grid.empty 0).write ⟨0, 0, 0⟩ ⟨7, true⟩).write ⟨2, 0, 0⟩
      ⟨7, true⟩
    let dest : Grid Int32 2 := .empty 5
    let r : Resampler ℚ := ⟨.one, some .one, false, true, .ok (.int 0), none⟩
    source'.background = source.background ∧ (∀ c, source'.read c = source.read c) ∧
    ∃ stats after stats' after',
      r.transform .ideal .point (.same Int32) (fun _ => source) dest = .ok stats after ∧
      r.transform .ideal .point (.same Int32) (fun _ => source') dest = .ok stats' after' ∧
      after.read ⟨1, 0, 0⟩ = ⟨5, false⟩ ∧ after'.read ⟨1, 0, 0⟩ = ⟨0, false⟩ := by
  intro source source' dest r
  have hreads : ∀ c, source'.read c = source.read c := fun c => by
    simp only [source, source', Grid.read_write]
    rfl
  have hends : ∀ (outcome : EStateM.Result Fault (Grid Int32 2) Stats) (v : Voxel Int32),
      (match outcome with
        | .ok _ after => some (after.read ⟨1, 0, 0⟩)
        | .error _ _ => none) = some v →
      ∃ stats after, outcome = .ok stats after ∧ after.read ⟨1, 0, 0⟩ = v := by
    rintro (⟨stats, after⟩ | ⟨e, after⟩) v h
    · exact ⟨stats, after, rfl, Option.some.inj h⟩
    · cases h
  obtain ⟨stats, after, hpass, hread⟩ :=
    hends (r.transform .ideal .point (.same Int32) (fun _ => source) dest) ⟨5, false⟩
      (by decide +kernel)
  obtain ⟨stats', after', hpass', hread'⟩ :=
    hends (r.transform .ideal .point (.same Int32) (fun _ => source') dest) ⟨0, false⟩
      (by decide +kernel)
  exact ⟨rfl, hreads, stats, after, stats', after', hpass, hpass', hread, hread'⟩

end SparseVoxel.Resampler

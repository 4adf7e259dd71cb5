import SparseVoxel.Proofs.Resampler.Exact

/-!
# What a pass leaves at every voxel

In exact arithmetic a pass between two grids of one value type and with one background is never
refused (`transform_eq_ok`), and what it leaves at a voxel depends only on how the region of that
voxel is treated (`Stage.Settled`, kept by each step in `Stage.Settled.step`).
A region that is skipped would not have been written if it had been sampled
(`settled_eq_written`), so without the copying of tiles a pass samples every voxel of its reach,
whatever regions it takes the reach apart into: this is `Resampler.transform_reads`.
-/

namespace SparseVoxel.Traversal

variable {K : Type} [Field K] [LinearOrder K] [FloorRing K]
variable {V : Type} {k m : Nat} [BEq V] [VoxelValue K V]

/-! ## Stages -/

/-- The facts about voxels that every step keeps: those of pending regions are as they were before,
and those of finished regions are as the treatment of the region leaves them. -/
structure Stage.Settled (t : Traversal K k) (inv : Matrix4 K) (source : Grid V k)
    (before : Grid V m) (s : Stage V m) : Prop where
  background : s.dest.background = before.background
  pending_read : ∀ r ∈ s.pending, ∀ y ∈ r.box, s.dest.read y = before.read y
  finished_read : ∀ r ∈ s.progress.finished, ∀ y ∈ r.box, s.dest.read y =
    settled t.sampler inv source (t.treats inv source r.box) y (before.read y)

theorem Stage.Settled.start (t : Traversal K k) (inv : Matrix4 K) (source : Grid V k) (reach : Box)
    (dest : Grid V m) : (Stage.start reach dest).Settled t inv source dest :=
  ⟨rfl, fun _ _ _ _ => rfl, fun _ hr => absurd hr List.not_mem_nil⟩

variable [IsStrictOrderedRing K] [LawfulBEq V] {t : Traversal K k} {inv : Matrix4 K}
variable {source : Grid V k}

/-- A region that is skipped would be left as it is by sampling, too. -/
theorem settled_eq_written [ExactValue K V] {region : Box} {y : Coord} (hy : y ∈ region)
    (hfill : ∀ state, t.treats inv source region ≠ .fill state) (old : Voxel V) :
    settled t.sampler inv source (t.treats inv source region) y old =
      written source.background (sampleOf t.sampler inv source y) old := by
  cases htreats : t.treats inv source region with
  | skip =>
    have hsample : sampleOf t.sampler inv source y = source.unset :=
      Sampler.sampleAt_of_uniform_expand t.sampler (within_imageBox inv hy) (read_of_skip htreats)
    rw [hsample, written, worth_eq_not_isUnset, Grid.isUnset, beq_self_eq_true]
    rfl
  | fill state => exact absurd htreats (hfill state)
  | sample => rfl

variable [Sized V] {before : Grid V m}

/-- Every round settles the voxels of the region that it finishes. -/
theorem Stage.Settled.step (hmachine : t.machine = .ideal)
    (hinverse : t.resampler.inverse = some inv)
    (hbackground : before.background = source.background) {s s' : Stage V m} {reach : Box}
    (hshared : Partitions (s.pending ++ s.progress.finished) reach)
    (hsettled : s.Settled t inv source before)
    (hstep : Step t (.same V) (fun _ => source) s s') : s'.Settled t inv source before := by
  obtain ⟨hsame, hpending, hfinished⟩ := hsettled
  cases hstep with
  | @split r rest p dest halves haction =>
    have hshares := action?_shares haction
    refine ⟨hsame, fun q hq y hy => ?_, hfinished⟩
    rcases List.mem_cons.mp hq with rfl | hq
    · exact hpending r List.mem_cons_self y ((hshares.mem_or y).mpr (Or.inr hy))
    · rcases List.mem_cons.mp hq with rfl | hq
      · exact hpending r List.mem_cons_self y ((hshares.mem_or y).mpr (Or.inl hy))
      · exact hpending q (List.mem_cons_of_mem r hq) y hy
  | @finish r rest p p' dest dest' how haction hfinish =>
    have hhow : how = t.treats inv source r.box := by
      rcases action?_cases hinverse source r with ⟨halves, hsplit⟩ | htreats
      · rw [hsplit] at haction
        cases haction
      · rw [htreats] at haction
        cases haction
        rfl
    obtain ⟨q', after, hafter, hsettles⟩ :=
      finish?_settles hmachine hinverse r how p (hsame.trans hbackground)
    rw [hafter] at hfinish
    cases hfinish
    have hapart := (List.pairwise_cons.mp hshared.disjoint).1
    -- another region has no voxel in common with the one that is finished
    have hkept : ∀ q ∈ rest ++ p.finished, ∀ y ∈ q.box, dest'.read y = dest.read y := by
      intro q hq y hy
      rw [hsettles.read_eq, if_neg fun hr => hapart q hq y hr hy]
    refine ⟨hsettles.background.trans hsame, fun q hq y hy => ?_, fun q hq y hy => ?_⟩
    · rw [hkept q (List.mem_append_left _ hq) y hy]
      exact hpending q (List.mem_cons_of_mem r hq) y hy
    · rcases (hsettles.finished q).mp hq with rfl | hq
      · rw [hsettles.read_eq, if_pos hy, hhow, hpending q List.mem_cons_self y hy]
      · rw [hkept q (List.mem_append_right _ hq) y hy]
        exact hfinished q hq y hy

theorem Stage.Settled.of_reaches (hmachine : t.machine = .ideal)
    (hinverse : t.resampler.inverse = some inv)
    (hbackground : before.background = source.background) {reach : Box} (hreach : reach.Nonempty)
    {s : Stage V m} (h : Reaches t (.same V) (fun _ => source) (.start reach before) s) :
    s.Settled t inv source before := by
  induction h with
  | refl => exact .start t inv source reach before
  | tail hreaches hstep ih =>
    exact ih.step hmachine hinverse hbackground
      (Stage.shares_of_reaches hreach hreaches) hstep

theorem Stage.Settled.not_refused (hmachine : t.machine = .ideal)
    (hinverse : t.resampler.inverse = some inv)
    (hbackground : before.background = source.background) {s : Stage V m}
    (hsettled : s.Settled t inv source before) (e : Fault) (after : Grid V m) :
    ¬ Refused t (.same V) (fun _ => source) s e after := by
  intro h
  cases h with
  | @action r rest p dest e haction =>
    rcases action?_cases hinverse source r with ⟨halves, hsplit⟩ | htreats
    · rw [hsplit] at haction
      cases haction
    · rw [htreats] at haction
      cases haction
  | @finish r rest p dest dest' e how haction hfinish =>
    obtain ⟨p', after, hafter, -⟩ :=
      finish?_settles hmachine hinverse r how p (hsettled.background.trans hbackground)
    rw [hafter] at hfinish
    cases hfinish

/-! ## Runs -/

theorem exists_run_eq_ok (hmachine : t.machine = .ideal)
    (hinverse : t.resampler.inverse = some inv)
    (hbackground : before.background = source.background) {reach : Box}
    (hreach : reach.Nonempty) :
    ∃ p after, t.run (.same V) (fun _ => source) .start (Region.ofBox? reach).toList before =
      .ok p after ∧ Reaches t (.same V) (fun _ => source) (.start reach before) ⟨[], p, after⟩ := by
  have hends : Ends t (.same V) (fun _ => source) (.start reach before) _ := run_spec _
  simp only [Stage.start] at hends ⊢
  cases hrun : t.run (.same V) (fun _ => source) .start (Region.ofBox? reach).toList before with
  | ok p after =>
    rw [hrun] at hends
    exact ⟨p, after, rfl, hends⟩
  | error e after =>
    rw [hrun] at hends
    obtain ⟨s, hreaches, hrefused⟩ := hends
    have hsettled := Stage.Settled.of_reaches hmachine hinverse hbackground hreach hreaches
    exact absurd hrefused (hsettled.not_refused hmachine hinverse hbackground e after)

/-- In the end every voxel of the reach is as the treatment of some region leaves it. -/
theorem exists_settled (hmachine : t.machine = .ideal)
    (hinverse : t.resampler.inverse = some inv)
    (hbackground : before.background = source.background) {reach : Box} (hreach : reach.Nonempty)
    {p : Progress} {after : Grid V m}
    (h : Reaches t (.same V) (fun _ => source) (.start reach before) ⟨[], p, after⟩) {y : Coord}
    (hy : y ∈ reach) :
    ∃ region, y ∈ region ∧ after.read y =
      settled t.sampler inv source (t.treats inv source region) y (before.read y) := by
  have hshares := Stage.shares_of_reaches hreach h
  have hsettled := Stage.Settled.of_reaches hmachine hinverse hbackground hreach h
  obtain ⟨r, hr, hyr⟩ := (hshares.cover y).mp hy
  exact ⟨r.box, hyr, hsettled.finished_read r hr y hyr⟩

end SparseVoxel.Traversal

/-! ## Whole passes -/

namespace SparseVoxel.Resampler

variable {K : Type} [Field K] [LinearOrder K] [FloorRing K]

/-- The reach of a map is the image of the active box, padded by the greater of the radius and the
margin. -/
theorem reach?_eq {r : Resampler K} {margin : Int} (hmargin : r.margin = .ok (.int margin))
    (active : Box) (radius : Int) : r.reach? active radius =
      .ok ((Affine.imageBox r.forward active).expand (max radius margin)) := by
  have himage := Affine.imageBox?_eq_ok (fun _ => rfl) r.forward active
  obtain ⟨corners, hcorners, himage⟩ := bind_eq_ok.mp himage
  have hexpand : (Affine.imageBox r.forward active).expandBy? (padding (.int margin) radius) =
      .ok ((Affine.imageBox r.forward active).expand (max radius margin)) := by
    unfold padding Number.exceeds
    simp only [decide_eq_true_eq]
    split
    · next hlt =>
      rw [max_eq_right hlt.le]
      rfl
    · next hlt =>
      rw [max_eq_left (not_lt.mp hlt)]
      rfl
  refine bind_eq_ok.mpr ⟨corners, hcorners, ?_⟩
  exact bind_eq_ok.mpr ⟨_, hmargin, bind_eq_ok.mpr ⟨_, himage, hexpand⟩⟩

variable [IsStrictOrderedRing K] {V : Type} {k m : Nat} [BEq V] [LawfulBEq V] [VoxelValue K V]
variable [Sized V] {r : Resampler K} {inv : Matrix4 K}

theorem transform_eq_ok (hinverse : r.inverse = some inv) {margin : Int}
    (hmargin : r.margin = .ok (.int margin)) (sampler : Sampler) {source : Grid V k}
    {dest : Grid V m} (hbackground : dest.background = source.background) {active : Box}
    (hactive : source.activeBox? = some active) :
    ∃ reach p after, r.reach? active sampler.radius = .ok reach ∧ reach.Nonempty ∧
      r.transform .ideal sampler (.same V) (fun _ => source) dest = .ok (p.stats reach) after ∧
      Traversal.Reaches (K := K) ⟨r, sampler, .ideal⟩ (.same V) (fun _ => source)
        (.start reach dest) ⟨[], p, after⟩ := by
  have hreach := reach?_eq hmargin active sampler.radius
  have hne := nonempty_reach? hmargin hreach
  obtain ⟨p, after, hrun, hreaches⟩ := Traversal.exists_run_eq_ok (t := ⟨r, sampler, .ideal⟩) rfl
    hinverse hbackground hne
  refine ⟨_, p, after, hreach, hne, ?_, hreaches⟩
  rw [transform_eq_run hinverse sampler (.same V) (Grid.boundActive?_of_activeBox? hactive),
    hreach]
  simp only [hrun]

/-- **What a pass leaves without the copying of tiles.** Every voxel of the reach gets its sample,
if the sample is active or differs from the background, and every other voxel stays as it is. -/
theorem transform_reads [ExactValue K V] (hinverse : r.inverse = some inv) {margin : Int}
    (hmargin : r.margin = .ok (.int margin)) (htiles : r.copyTiles = false) (sampler : Sampler)
    (source : Grid V k) (dest : Grid V m) (hbackground : dest.background = source.background)
    {c : Coord} (hactive : (source.read c).active = true) :
    ∃ active reach stats after, source.activeBox? = some active ∧
      r.reach? active sampler.radius = .ok reach ∧
      r.transform .ideal sampler (.same V) (fun _ => source) dest = .ok stats after ∧
      stats.reach = some reach ∧
      ∀ y, ∃ v, sampler.readGrid? source (inv.apply y.toScalars) = .ok v ∧
        after.read y =
          if y ∈ reach ∧ (v.active || v.value != dest.background) then v else dest.read y := by
  obtain ⟨active, hbox, -⟩ := Grid.mem_activeBox? hactive
  obtain ⟨reach, p, after, hreach, hne, hpass, hreaches⟩ :=
    transform_eq_ok hinverse hmargin sampler hbackground hbox
  refine ⟨active, reach, _, after, hbox, hreach, hpass, rfl, fun y => ?_⟩
  refine ⟨_, Sampler.readGrid?_eq_ok sampler source _, ?_⟩
  by_cases hy : y ∈ reach
  · obtain ⟨region, hregion, hread⟩ :=
      Traversal.exists_settled rfl hinverse hbackground hne hreaches hy
    rw [hread, Traversal.settled_eq_written hregion (Traversal.treats_ne_fill htiles),
      Traversal.written, hbackground]
    simp only [hy, true_and]
    rfl
  · rw [if_neg fun h => hy h.1]
    exact (Traversal.Stage.confined_of_reaches (.of_ideal rfl reach) hne hreaches).frame y hy

/-- A grid with one active voxel, mapped onto a lattice twice as fine. -/
theorem transform_reads_of_single :
    let source : Grid Int32 3 := (Grid.empty 0).write ⟨1, -2, 3⟩ ⟨7, true⟩
    let dest : Grid Int32 2 := .empty 0
    let inv : Matrix4 ℚ := .scaling ⟨1 / 2, 1 / 2, 1 / 2⟩
    let r : Resampler ℚ := ⟨.scaling ⟨2, 2, 2⟩, some inv, false, true, .ok (.int 1), none⟩
    ∃ active reach stats after, source.activeBox? = some active ∧
      r.reach? active (Sampler.radius .quadratic) = .ok reach ∧
      r.transform .ideal .quadratic (.same Int32) (fun _ => source) dest = .ok stats after ∧
      stats.reach = some reach ∧
      ∀ y, ∃ v, Sampler.readGrid? .quadratic source (inv.apply y.toScalars) = .ok v ∧
        after.read y =
          if y ∈ reach ∧ (v.active || v.value != dest.background) then v else dest.read y := by
  intro source dest inv r
  have hactive : (source.read ⟨1, -2, 3⟩).active = true := by
    rw [Grid.read_write, if_pos rfl]
  exact transform_reads rfl rfl rfl .quadratic source dest rfl hactive

end SparseVoxel.Resampler

import SparseVoxel.Proofs.Scalar.Binary64
import SparseVoxel.Proofs.Affine.Image
import SparseVoxel.Proofs.Grid.Active
import SparseVoxel.Proofs.Resampler.Finish
import SparseVoxel.Proofs.Resampler.Partition
import SparseVoxel.Proofs.Resampler.Stages

/-!
# What a pass covers

Whatever the map, the sampler, the scalars and the machine, the pending and the finished regions of
a pass share out the reach of the map at every stage (`Step.shares`). No region is empty, and
neither is what a region looks at, so the source is never probed on an empty box
(`probes_of_nonempty`). Where the machine lists the voxels of the reach as they are, nothing outside
the reach is written (`Stage.Confined`, kept by each step in `Stage.Confined.step`).

`Resampler.transform_covers` puts this together for a whole pass: it ends after at most twice as
many rounds as the reach has voxels, either with nothing pending or because a round is refused.
-/

namespace SparseVoxel

/-- The regions that are finished. -/
def Progress.finished (p : Progress) : List Region :=
  p.skipped ++ p.filled ++ p.sampled

namespace Traversal

variable {K V W : Type} {k m : Nat} [Scalar K]

/-! ## Regions that are halved or looked at -/

theorem refine?_shares {t : Traversal K k} {r : Region} {halves : r.Halves}
    (h : t.refine? r = .ok (.split halves : Action V r)) : halves.Shares := by
  unfold refine? at h
  split at h
  · next hsplit =>
    cases h
    exact Region.split?_shares hsplit
  · obtain ⟨window, -, h⟩ := bind_eq_ok.mp h
    split at h
    · split at h
      · next hsplit =>
        cases h
        exact Region.split?_shares hsplit
      · cases h
    · cases h

/-- A region is only ever replaced by halves that share out its voxels. -/
theorem action?_shares [BEq V] {t : Traversal K k} {source : Grid V k} {r : Region}
    {halves : r.Halves} (h : t.action? source r = .ok (.split halves)) : halves.Shares := by
  obtain ⟨how, -, h⟩ := bind_eq_ok.mp h
  cases how with
  | skip => cases h
  | fill state => cases h
  | sample => exact refine?_shares h

theorem examine?_eq_ok [BEq V] (source : Grid V k) {box : Box} (h : box.Nonempty)
    (tilesOnly : Bool) : source.examine? box tilesOnly = .ok (source.uniform? box tilesOnly) := by
  rw [Grid.examine?, Box.isEmpty_eq_false.mpr h]
  rfl

theorem nonempty_expand {b : Box} (h : b.Nonempty) {n : Int} (hn : 0 ≤ n) :
    (b.expand n).Nonempty :=
  Box.nonempty_of_mem (Box.mem_expand hn (Box.lo_mem h))

theorem nonempty_preimage? [OrderedScalar K] {r : Resampler K} {region seen : Box}
    (h : r.preimage? region = .ok seen) : seen.Nonempty := by
  unfold Resampler.preimage? at h
  split at h
  · exact Affine.nonempty_imageBox? h
  · obtain ⟨corners, -, h⟩ := bind_eq_ok.mp h
    cases h

/-! ## Stages -/

/-- Writing the samples of a region leaves the voxels outside as they are. -/
theorem read_writeAll_of_not_mem [VoxelValue K V] [Sized V] {t : Traversal K k}
    {transfer : Transfer V W} {source : Grid V k} {region : Region}
    (hlist : t.machine.Enumerates region.box) {samples : List (Coord × Voxel V)} {dest : Grid W m}
    {writes : List (Coord × Voxel W)} (hsamples : t.samples? source region.box = .ok samples)
    (hwrites : writes? transfer dest.background samples = .ok writes) {c : Coord}
    (hc : c ∉ region.box) : (dest.writeAll writes).read c = dest.read c := by
  rw [Grid.read_writeAll]
  refine overwrite_of_not_mem (fun w hw he => hc ?_) _
  have hmem := (of_writes? hwrites).2 w hw
  rw [coords_of_samples? hlist hsamples, he] at hmem
  exact Box.mem_coords.mp hmem

/-- A region that is finished is counted once, in one of three ways. -/
theorem finished_of_finish? [VoxelValue K V] [Sized V] [BEq W] [Sized W] {t : Traversal K k}
    {transfer : Transfer V W} {source : Grid V k} {r : Region} {p p' : Progress} {how : Treatment V}
    {dest dest' : Grid W m} (h : t.finish? transfer source r p how dest = .ok p' dest') :
    p'.finished.Perm (r :: p.finished) := by
  cases how with
  | skip =>
    cases h
    exact .refl _
  | fill state =>
    obtain ⟨rfl, -⟩ := fill_of_finish? h
    simp only [Progress.finished, List.append_assoc]
    exact List.perm_middle
  | sample =>
    obtain ⟨_, _, -, -, rfl, -⟩ := sample_of_finish? h
    exact List.perm_middle

section Stages

variable [BEq V] [VoxelValue K V] [Sized V] [BEq W] [Sized W] {t : Traversal K k}
variable {transfer : Transfer V W} {source : Grid W m → Grid V k} {reach : Box}

/-- A step leaves the voxels shared out among the pending and the finished regions. -/
theorem Step.shares {s s' : Stage W m} (hstep : Step t transfer source s s')
    (hshared : Partitions (s.pending ++ s.progress.finished) reach) :
    Partitions (s'.pending ++ s'.progress.finished) reach := by
  cases hstep with
  | split haction => exact hshared.halve (action?_shares haction)
  | @finish r rest p p' dest dest' how haction hfinish =>
    have hmiddle : (r :: (rest ++ p.finished)).Perm (rest ++ r :: p.finished) :=
      List.perm_middle.symm
    exact hshared.perm (hmiddle.trans ((finished_of_finish? hfinish).symm.append_left rest))

/-- At every stage the pending and the finished regions share out the reach. -/
theorem Stage.shares_of_reaches (hreach : reach.Nonempty) {before : Grid W m} {s : Stage W m}
    (h : Reaches t transfer source (Stage.start reach before) s) :
    Partitions (s.pending ++ s.progress.finished) reach := by
  induction h with
  | refl =>
    simp only [Stage.start, Region.ofBox?_eq_some hreach]
    exact Partitions.single hreach
  | tail _ hstep ih => exact hstep.shares ih

/-- No more voxels are written than sampled, and none outside the reach. -/
structure Stage.Confined (reach : Box) (before : Grid W m) (s : Stage W m) : Prop where
  written_le : s.progress.written ≤ (s.progress.sampled.map Region.volume).sum
  frame : ∀ c, c ∉ reach → s.dest.read c = before.read c

theorem Stage.Confined.step (hlist : t.machine.EnumeratesIn reach) {before : Grid W m}
    {s s' : Stage W m} (hconfined : s.Confined reach before)
    (hshared : Partitions (s.pending ++ s.progress.finished) reach)
    (hstep : Step t transfer source s s') : s'.Confined reach before := by
  obtain ⟨hwritten, hframe⟩ := hconfined
  cases hstep with
  | split haction => exact ⟨hwritten, hframe⟩
  | @finish r rest p p' dest dest' how haction hfinish =>
    have hinside : ∀ c ∈ r.box, c ∈ reach := fun c hc =>
      (hshared.cover c).mpr ⟨r, List.mem_cons_self, hc⟩
    cases how with
    | skip =>
      cases hfinish
      exact ⟨hwritten, hframe⟩
    | fill state =>
      obtain ⟨rfl, v, -, rfl⟩ := fill_of_finish? hfinish
      refine ⟨hwritten, fun c hc => ?_⟩
      rw [Grid.read_fill_of_not_mem _ _ fun hr => hc (hinside c hr)]
      exact hframe c hc
    | sample =>
      obtain ⟨samples, writes, hsamples, hwrites, rfl, rfl⟩ := sample_of_finish? hfinish
      have hregion := hlist r.box r.nonempty hinside
      refine ⟨?_, fun c hc => ?_⟩
      · have hle := (of_writes? hwrites).1
        rw [length_of_samples? hregion hsamples] at hle
        exact Nat.le_trans (Nat.add_le_add hwritten hle) (Nat.le_of_eq (Nat.add_comm _ _))
      · rw [read_writeAll_of_not_mem hregion hsamples hwrites fun hr => hc (hinside c hr)]
        exact hframe c hc

theorem Stage.confined_of_reaches (hlist : t.machine.EnumeratesIn reach) (hreach : reach.Nonempty)
    {before : Grid W m} {s : Stage W m}
    (h : Reaches t transfer source (Stage.start reach before) s) : s.Confined reach before := by
  induction h with
  | refl => exact ⟨Nat.zero_le _, fun _ _ => rfl⟩
  | tail hreaches hstep ih => exact ih.step hlist (shares_of_reaches hreach hreaches) hstep

/-- Where there is room, a round that is refused writes nothing. -/
theorem Refused.dest_eq (hroom : t.machine.HasRoom W m) {s : Stage W m} {e : Fault}
    {after : Grid W m} (h : Refused t transfer source s e after) : after = s.dest := by
  cases h with
  | action _ => rfl
  | @finish r rest p dest dest' e how haction hfinish =>
    cases how with
    | skip => cases hfinish
    | fill state =>
      rw [finish?_fill hroom] at hfinish
      split at hfinish
      · cases hfinish
      · cases hfinish
        rfl
    | sample =>
      rw [finish?_sample hroom] at hfinish
      split at hfinish
      · cases hfinish
        rfl
      · split at hfinish
        · cases hfinish
          rfl
        · cases hfinish

end Stages

/-- Probing what a region looks at, as it is treated, has an answer. -/
def Probes [BEq V] (t : Traversal K k) (source : Grid V k) (region : Box) : Prop :=
  ∀ seen, t.resampler.preimage? region = .ok seen →
    (∃ found, source.examine? (seen.expand t.sampler.radius) false = .ok found) ∧
      ∃ found, source.examine? seen true = .ok found

theorem probes_of_nonempty [BEq V] [OrderedScalar K] (t : Traversal K k) (source : Grid V k)
    (region : Box) : t.Probes source region := by
  intro seen hseen
  have hne := nonempty_preimage? hseen
  exact ⟨⟨_, examine?_eq_ok source (nonempty_expand hne (Int.natCast_nonneg _)) false⟩,
    _, examine?_eq_ok source hne true⟩

end Traversal

/-! ## Whole passes -/

namespace Resampler

variable {K : Type} [Scalar K]

/-- Padding by an integer margin gives the image of the active box, expanded by no less than the
radius of the sampler. -/
theorem reach?_of_margin {r : Resampler K} {margin : Int} (hmargin : r.margin = .ok (.int margin))
    {active reach : Box} {radius : Int} (h : r.reach? active radius = .ok reach) :
    ∃ image n, Affine.imageBox? r.forward active = .ok image ∧ radius ≤ n ∧
      reach = image.expand n := by
  obtain ⟨corners, hcorners, h⟩ := bind_eq_ok.mp h
  obtain ⟨_, hread, h⟩ := bind_eq_ok.mp h
  cases hmargin.symm.trans hread
  obtain ⟨image, himage, h⟩ := bind_eq_ok.mp h
  refine ⟨image, if radius < margin then margin else radius, ?_, ?_, ?_⟩
  · rw [Affine.imageBox?, hcorners]
    exact himage
  · split <;> omega
  · unfold padding Number.exceeds at h
    simp only [decide_eq_true_eq] at h
    split at h
    · next hlt =>
      cases h
      rw [if_pos hlt]
    · next hlt =>
      cases h
      rw [if_neg hlt]

theorem nonempty_reach? [OrderedScalar K] {r : Resampler K} {margin : Int}
    (hmargin : r.margin = .ok (.int margin)) {active reach : Box} {radius : Nat}
    (h : r.reach? active radius = .ok reach) : reach.Nonempty := by
  obtain ⟨image, n, himage, hn, rfl⟩ := reach?_of_margin hmargin h
  exact Traversal.nonempty_expand (Affine.nonempty_imageBox? himage) (by omega)

variable {V W : Type} {k m : Nat} [BEq V] [VoxelValue K V] [Sized V] [BEq W] [Sized W]

theorem transform_of_inactive (r : Resampler K) (sampler : Sampler) (transfer : Transfer V W)
    {source : Grid W m → Grid V k} {dest : Grid W m} (hactive : (source dest).activeBox? = none) :
    r.transform .ideal sampler transfer source dest = .ok .none dest := by
  unfold transform
  split
  · rfl
  · refine (Grid.Attempt.check_bind ((source dest).boundActive? .ideal) _ dest).trans ?_
    rw [Grid.boundActive?_ideal, hactive]
    rfl

/-- With an inverse and a box around active voxels, resampling is a run over the reach of the
map. -/
theorem transform_eq_run {r : Resampler K} {inv : Matrix4 K} (hinverse : r.inverse = some inv)
    {machine : Machine} (sampler : Sampler) (transfer : Transfer V W)
    {source : Grid W m → Grid V k} {dest : Grid W m} {active : Box}
    (hactive : (source dest).boundActive? machine = .ok (some active)) :
    r.transform machine sampler transfer source dest =
      match r.reach? active sampler.radius with
      | .error e => .error e dest
      | .ok reach =>
        match Traversal.run (K := K) ⟨r, sampler, machine⟩ transfer source .start
            (Region.ofBox? reach).toList dest with
        | .ok p after => .ok (p.stats reach) after
        | .error e after => .error e after := by
  unfold transform
  rw [hinverse]
  refine (Grid.Attempt.check_bind ((source dest).boundActive? machine) _ dest).trans ?_
  rw [hactive]
  refine (Grid.Attempt.check_bind (r.reach? active sampler.radius) _ dest).trans ?_
  cases r.reach? active sampler.radius with
  | error e => rfl
  | ok reach =>
    refine (Grid.Attempt.bind_eq (Traversal.run (K := K) ⟨r, sampler, machine⟩ transfer source
      .start (Region.ofBox? reach).toList) _ dest).trans ?_
    cases hrun : Traversal.run (K := K) ⟨r, sampler, machine⟩ transfer source .start
        (Region.ofBox? reach).toList dest with
    | ok p after => simp only [hrun]; rfl
    | error e after => simp only [hrun]

/-- Where the active voxels cannot be enclosed, nothing is done. -/
theorem transform_of_not_bounded {r : Resampler K} {inv : Matrix4 K}
    (hinverse : r.inverse = some inv) {machine : Machine} (sampler : Sampler)
    (transfer : Transfer V W) {source : Grid W m → Grid V k} {dest : Grid W m} {e : Fault}
    (hactive : (source dest).boundActive? machine = .error e) :
    r.transform machine sampler transfer source dest = .error e dest := by
  unfold transform
  rw [hinverse]
  refine (Grid.Attempt.check_bind ((source dest).boundActive? machine) _ dest).trans ?_
  rw [hactive]

/-- What a pass over a region covers, and how it ends. -/
structure Covers (t : Traversal K k) (transfer : Transfer V W) (source : Grid W m → Grid V k)
    (dest : Grid W m) (reach : Box) (outcome : EStateM.Result Fault (Grid W m) Stats) : Prop where
  nonempty : reach.Nonempty
  /-- At every stage the pending and the finished regions share out the reach. -/
  shared : ∀ s, t.Reaches transfer source (.start reach dest) s →
    Partitions (s.pending ++ s.progress.finished) reach
  /-- Probing never fails because a box is empty. -/
  probes : ∀ s, t.Reaches transfer source (.start reach dest) s → ∀ r ∈ s.pending,
    t.Probes (source s.dest) r.box
  /-- The loop ends after so many rounds at the latest. -/
  rounds_le : ∀ (n : Nat) (f : Nat → Traversal.Stage W m), f 0 = .start reach dest →
    (∀ i < n, t.Step transfer source (f i) (f (i + 1))) → n ≤ 2 * reach.volume - 1
  /-- Where the machine lists the voxels of the reach as they are, no others are written. -/
  confined : t.machine.EnumeratesIn reach →
    ∀ s, t.Reaches transfer source (.start reach dest) s → s.Confined reach dest
  /-- Unless a round is refused, the finished regions share out the reach and are counted. A round
  that is refused writes nothing if there is room for leaves. -/
  ends : match outcome with
    | .ok stats after => ∃ p : Progress,
        t.Reaches transfer source (.start reach dest) ⟨[], p, after⟩ ∧
        Partitions (p.skipped ++ p.filled ++ p.sampled) reach ∧
        stats.reach = some reach ∧ stats.skipped = p.skipped.length ∧
        stats.filled = p.filled.length ∧ stats.sampled = p.sampled.length ∧
        stats.sampledVoxels = (p.sampled.map Region.volume).sum ∧
        (t.machine.EnumeratesIn reach →
          stats.written ≤ stats.sampledVoxels ∧ ∀ c, c ∉ reach → after.read c = dest.read c)
    | .error e after => (∃ s, t.Reaches transfer source (.start reach dest) s ∧
          t.Refused transfer source s e after) ∧
        (t.machine.HasRoom W m → t.machine.EnumeratesIn reach →
          ∀ c, c ∉ reach → after.read c = dest.read c)

theorem sampledVoxels_stats (p : Progress) (reach : Box) :
    (p.stats reach).sampledVoxels = (p.sampled.map Region.volume).sum := by
  rw [List.sum_eq_foldr, List.foldr_map]
  rfl

/-- A run over a region that is not empty covers it, on whatever machine. -/
theorem covers_run [OrderedScalar K] {t : Traversal K k} {reach : Box} (hne : reach.Nonempty)
    (transfer : Transfer V W) (source : Grid W m → Grid V k) (dest : Grid W m) :
    Covers t transfer source dest reach
      (match t.run transfer source .start (Region.ofBox? reach).toList dest with
        | .ok p after => .ok (p.stats reach) after
        | .error e after => .error e after) where
  nonempty := hne
  shared _ hs := Traversal.Stage.shares_of_reaches hne hs
  probes _ _ _ _ := Traversal.probes_of_nonempty _ _ _
  rounds_le n f hstart hsteps := by
    have hle := Traversal.length_chain_le hsteps
    simp only [hstart, Traversal.Stage.start, Region.ofBox?_eq_some hne, Option.toList,
      Region.weight, List.foldr_cons, List.foldr_nil, Nat.add_zero] at hle
    exact hle
  confined hlist _ hs := Traversal.Stage.confined_of_reaches hlist hne hs
  ends := by
    have hrun : t.Ends transfer source (.start reach dest) _ := Traversal.run_spec _
    simp only [Traversal.Stage.start] at hrun ⊢
    cases houtcome : t.run transfer source .start (Region.ofBox? reach).toList dest with
    | ok p after =>
      rw [houtcome] at hrun
      refine ⟨p, hrun, Traversal.Stage.shares_of_reaches hne hrun, rfl, rfl, rfl, rfl,
        sampledVoxels_stats p reach, fun hlist => ?_⟩
      rw [sampledVoxels_stats]
      obtain ⟨hwritten, hframe⟩ := Traversal.Stage.confined_of_reaches hlist hne hrun
      exact ⟨hwritten, hframe⟩
    | error e after =>
      rw [houtcome] at hrun
      obtain ⟨s, hreaches, hrefused⟩ := hrun
      refine ⟨⟨s, hreaches, hrefused⟩, fun hroom hlist c hc => ?_⟩
      rw [hrefused.dest_eq hroom]
      exact (Traversal.Stage.confined_of_reaches hlist hne hreaches).frame c hc

/-- **A pass takes the reach apart.** With an inverse and an active voxel, on whatever machine, the
loop ends, the regions it pops are not empty, and in the end they share out the reach of the map. On
the ideal machine the box around the active voxels is found (`Grid.boundActive?_ideal`). -/
theorem transform_covers [OrderedScalar K] {r : Resampler K} {inv : Matrix4 K}
    (hinverse : r.inverse = some inv) {margin : Int} (hmargin : r.margin = .ok (.int margin))
    (machine : Machine) (sampler : Sampler) (transfer : Transfer V W)
    (source : Grid W m → Grid V k) (dest : Grid W m) {c : Coord}
    (hactive : ((source dest).read c).active = true) :
    match (source dest).boundActive? machine with
    | .error e => r.transform machine sampler transfer source dest = .error e dest
    | .ok found => ∃ active, found = some active ∧
      match r.reach? active sampler.radius with
      | .error e => r.transform machine sampler transfer source dest = .error e dest
      | .ok reach => Covers ⟨r, sampler, machine⟩ transfer source dest reach
          (r.transform machine sampler transfer source dest) := by
  cases hbound : (source dest).boundActive? machine with
  | error e => exact transform_of_not_bounded hinverse sampler transfer hbound
  | ok found =>
    obtain ⟨box, hbox, -⟩ := Grid.mem_activeBox? hactive
    have hsome := Grid.isSome_of_boundActive? hbound
    rw [hbox] at hsome
    obtain ⟨active, rfl⟩ := Option.isSome_iff_exists.mp hsome
    refine ⟨active, rfl, ?_⟩
    have hpass := transform_eq_run hinverse sampler transfer hbound
    cases hreach : r.reach? active sampler.radius with
    | error e => rw [hpass, hreach]
    | ok reach =>
      rw [hpass, hreach]
      exact covers_run (nonempty_reach? hmargin hreach) transfer source dest

/-- A tile and a voxel two blocks away, mapped as they are on the machine of words. The reach has
voxels in three blocks, one of which is skipped, one filled and one sampled. -/
theorem transform_covers_of_tile_and_leaf :
    let source : Grid Int32 1 :=
      ((Grid.empty 0).fill (Box.ofBlock 1 ⟨0, 0, 0⟩) ⟨7, true⟩).write ⟨-3, 0, 0⟩ ⟨5, true⟩
    let dest : Grid Int32 1 := .empty 0
    let r : Resampler Float := ⟨.one, some .one, true, true, .ok (.int 0), none⟩
    let reach : Box := ⟨⟨-3, 0, 0⟩, ⟨1, 1, 1⟩⟩
    (source.read ⟨-3, 0, 0⟩).active = true ∧ source.boundActive? .words = .ok (some reach) ∧
      r.reach? reach (Sampler.radius .point) = .ok reach ∧
      reach.blocks 1 = [⟨-2, 0, 0⟩, ⟨-1, 0, 0⟩, ⟨0, 0, 0⟩] ∧
      Machine.words.HasRoom Int32 1 ∧ Machine.words.EnumeratesIn reach ∧
      EStateM.run' (r.transform .words .point (.same Int32) fun _ => source) dest =
        some ⟨some reach, 1, 1, 1, 4, 1⟩ ∧
      Covers ⟨r, .point, .words⟩ (.same Int32) (fun _ => source) dest reach
        (r.transform .words .point (.same Int32) (fun _ => source) dest) := by
  intro source dest r reach
  have hactive : (source.read ⟨-3, 0, 0⟩).active = true := by
    rw [Grid.read_write, if_pos rfl]
  have hbound : (source.boundActive? .words).toOption = some (some reach) := by
    decide +kernel
  have hreach : (r.reach? reach (Sampler.radius .point)).toOption = some reach := by
    decide +kernel
  have hwords : reach.FitsWords := fun c hc =>
    (by decide : ∀ c ∈ reach.coords, ∀ n ∈ c.toList, Word.isSigned Word.bound64 n = true) c
      (Box.mem_coords.mpr hc)
  have hlist : Machine.words.EnumeratesIn reach :=
    Machine.enumeratesIn_words hwords (Machine.reserve?_words_iff.mpr (by decide))
  have hblocks : reach.blocks 1 = [⟨-2, 0, 0⟩, ⟨-1, 0, 0⟩, ⟨0, 0, 0⟩] := rfl
  have hstats : EStateM.run' (r.transform .words .point (.same Int32) fun _ => source) dest =
      some ⟨some reach, 1, 1, 1, 4, 1⟩ := by
    decide +kernel
  have hinverse : r.inverse = some .one := rfl
  have hmargin : r.margin = .ok (.int 0) := rfl
  -- from here on only what has been said of the source and the map matters
  clear_value source r reach
  have hcovers := transform_covers hinverse hmargin .words .point (.same Int32) (fun _ => source)
    dest hactive
  rw [eq_ok_of_toOption hbound] at hcovers
  obtain ⟨_, hsome, hcovers⟩ := hcovers
  cases hsome
  rw [eq_ok_of_toOption hreach] at hcovers
  exact ⟨hactive, eq_ok_of_toOption hbound, eq_ok_of_toOption hreach, hblocks, ⟨rfl, rfl⟩, hlist,
    hstats, hcovers⟩

end Resampler

end SparseVoxel

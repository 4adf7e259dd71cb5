import SparseVoxel.Proofs.Resampler.Settled

/-!
# Passes with and without the copying of tiles

In exact arithmetic copying tiles does not change what a pass skips, and it changes what a pass
leaves only where three voxels are blended on each axis.

For the voxels it is enough to look at a region that is filled (`settled_withTiles`): what it is
filled with is the state of the nearest voxel, and the nearest voxel and the linear blend give the
same. For the regions that are skipped, each step of the pass that copies tiles is matched by steps
of the pass that does not (`Stage.Matches.step`): where the one fills a region, the other works off
its parts, and none of these is skipped (`treats_ne_skip_of_fill`).
-/

namespace SparseVoxel.Traversal

variable {K : Type} [Field K] [LinearOrder K] [FloorRing K] {V : Type} {k m : Nat}

/-- The same traversal with or without the copying of tiles. -/
def withTiles (t : Traversal K k) (on : Bool) : Traversal K k :=
  { t with resampler := { t.resampler with copyTiles := on } }

variable [BEq V] {t : Traversal K k} {inv : Matrix4 K} {source : Grid V k}

/-! ## How regions are treated -/

theorem treats_withTiles_false (region : Box) :
    (t.withTiles false).treats inv source region =
      match (t.withTiles true).treats inv source region with
      | .skip => .skip
      | _ => .sample :=
  treatmentOf_false source _ _

variable [IsStrictOrderedRing K]

/-- Where no tile is copied, tiles do not matter to what is done about a region. -/
theorem action?_withTiles (hinverse : t.resampler.inverse = some inv) {r : Region}
    (hfill : ∀ state, (t.withTiles true).treats inv source r.box ≠ .fill state) :
    (t.withTiles false).action? source r = (t.withTiles true).action? source r := by
  rw [action?_eq (t := t.withTiles false) hinverse, action?_eq (t := t.withTiles true) hinverse,
    treats_withTiles_false]
  cases htreats : (t.withTiles true).treats inv source r.box with
  | skip => rfl
  | fill state => exact absurd htreats (hfill state)
  | sample => rfl

variable [LawfulBEq V]

/-- No part of a region that is filled would be skipped: the nearest voxel of any position in it
is in a tile that is not unset. -/
theorem treats_ne_skip_of_fill {region part : Box} {state : Voxel V}
    (hfill : (t.withTiles true).treats inv source region = .fill state) (hpart : part.Nonempty)
    (hsub : ∀ c ∈ part, c ∈ region) : (t.withTiles false).treats inv source part ≠ .skip := by
  intro hskip
  obtain ⟨hset, hread⟩ := read_of_fill hfill
  have hlo := Box.lo_mem hpart
  have hstate := hread _ (Sampler.nearest_mem (within_imageBox inv (hsub _ hlo)))
  have hunset := read_of_skip hskip _ (Box.mem_expand (Int.natCast_nonneg _)
    (Sampler.nearest_mem (within_imageBox inv hlo)))
  rw [hstate] at hunset
  rw [hunset, Grid.isUnset, beq_self_eq_true] at hset
  cases hset

variable [VoxelValue K V]

/-- Copying tiles leaves what sampling would, or else the nearest voxel of the source. -/
theorem settled_withTiles [ExactValue K V] {region : Box} {y : Coord} (hy : y ∈ region)
    (old : Voxel V) :
    let new := settled t.sampler inv source ((t.withTiles true).treats inv source region) y old
    new = written source.background (sampleOf t.sampler inv source y) old ∨
      t.sampler = .quadratic ∧ new = source.read (Sampler.nearest (inv.apply y.toScalars)) := by
  intro new
  cases htreats : (t.withTiles true).treats inv source region with
  | skip =>
    exact Or.inl (settled_eq_written (t := t.withTiles true) hy (by rw [htreats]; nofun) old)
  | sample =>
    exact Or.inl (settled_eq_written (t := t.withTiles true) hy (by rw [htreats]; nofun) old)
  | fill state =>
    have hnew : new = state := by
      show settled t.sampler inv source ((t.withTiles true).treats inv source region) y old = state
      rw [htreats]
      rfl
    obtain ⟨hset, hread⟩ := read_of_fill htreats
    have hwithin := within_imageBox inv hy
    by_cases hquadratic : t.sampler = .quadratic
    · exact Or.inr ⟨hquadratic, hnew.trans (hread _ (Sampler.nearest_mem hwithin)).symm⟩
    · left
      have hsample : sampleOf t.sampler inv source y = state :=
        Sampler.sampleAt_of_uniform hquadratic hwithin hread
      rw [hnew, hsample, written, worth_eq_not_isUnset, hset]
      rfl

/-! ## Simulation -/

variable [Sized V]

/-- Two stages at which the same regions are pending and the same regions have been skipped. -/
structure Stage.Matches (background : V) (s u : Stage V m) : Prop where
  pending : s.pending = u.pending
  skipped : s.progress.skipped = u.progress.skipped
  left_background : s.dest.background = background
  right_background : u.dest.background = background

/-- A region without a part that is skipped is worked off without skipping anything. -/
theorem reaches_rest_of_ne_skip (hmachine : t.machine = .ideal)
    (hinverse : t.resampler.inverse = some inv) (r : Region) (rest : List Region) (p : Progress)
    {dest : Grid V m} (hbackground : dest.background = source.background)
    (hskip : ∀ part : Box, part.Nonempty → (∀ c ∈ part, c ∈ r.box) →
      t.treats inv source part ≠ .skip) :
    ∃ p' dest', Reaches t (.same V) (fun _ => source) ⟨r :: rest, p, dest⟩ ⟨rest, p', dest'⟩ ∧
      p'.skipped = p.skipped ∧ dest'.background = source.background := by
  induction hvolume : r.volume using Nat.strongRecOn generalizing r rest p dest with
  | ind n ih =>
    subst hvolume
    rcases action?_cases hinverse source r with ⟨halves, haction⟩ | haction
    · have hshares := action?_shares haction
      have hlower := halves.lower.volume_pos
      have hupper := halves.upper.volume_pos
      have hsum := halves.volume_eq
      obtain ⟨p₁, dest₁, hreaches₁, hskipped₁, hbackground₁⟩ :=
        ih halves.upper.volume (by omega) halves.upper (halves.lower :: rest) p hbackground
          (fun part hpart hsub => hskip part hpart fun c hc =>
            (hshares.mem_or c).mpr (Or.inr (hsub c hc))) rfl
      obtain ⟨p₂, dest₂, hreaches₂, hskipped₂, hbackground₂⟩ :=
        ih halves.lower.volume (by omega) halves.lower rest p₁ hbackground₁
          (fun part hpart hsub => hskip part hpart fun c hc =>
            (hshares.mem_or c).mpr (Or.inl (hsub c hc))) rfl
      refine ⟨p₂, dest₂, ?_, hskipped₂.trans hskipped₁, hbackground₂⟩
      exact .head (.split haction) (hreaches₁.trans hreaches₂)
    · obtain ⟨p', dest', hfinish, hsettles⟩ :=
        finish?_settles hmachine hinverse r (t.treats inv source r.box) p hbackground
      refine ⟨p', dest', .single (.finish haction hfinish), ?_,
        hsettles.background.trans hbackground⟩
      have hnot := hskip r.box r.nonempty fun _ hc => hc
      rw [hsettles.skipped]
      split
      · next hhow => exact absurd hhow hnot
      · rfl

/-- A step of the pass that copies tiles is matched by steps of the pass that does not. -/
theorem Stage.Matches.step (hmachine : t.machine = .ideal)
    (hinverse : t.resampler.inverse = some inv) {s s' u : Stage V m}
    (h : s.Matches source.background u)
    (hstep : Step (t.withTiles true) (.same V) (fun _ => source) s s') :
    ∃ u', Reaches (t.withTiles false) (.same V) (fun _ => source) u u' ∧
      s'.Matches source.background u' := by
  obtain ⟨hpending, hskipped, hleft, hright⟩ := h
  obtain ⟨pending, q, after⟩ := u
  simp only at hpending hskipped hright
  cases hstep with
  | @split r rest p dest halves haction =>
    subst hpending
    have hplain : (t.withTiles false).action? source r = .ok (.split halves) := by
      rw [action?_withTiles hinverse, haction]
      intro state hfill
      rw [action?_eq (t := t.withTiles true) hinverse, hfill] at haction
      cases haction
    exact ⟨_, .single (.split hplain), rfl, hskipped, hleft, hright⟩
  | @finish r rest p p' dest dest' how haction hfinish =>
    subst hpending
    obtain ⟨p₁, dest₁, hfinish₁, hsettles₁⟩ :=
      finish?_settles (t := t.withTiles true) hmachine hinverse r how p hleft
    rw [hfinish₁] at hfinish
    cases hfinish
    have hleft' := hsettles₁.background.trans hleft
    by_cases hfill : ∃ state, (t.withTiles true).treats inv source r.box = .fill state
    · obtain ⟨state, hfill⟩ := hfill
      obtain ⟨q', after', hreaches, hskipped', hright'⟩ :=
        reaches_rest_of_ne_skip (t := t.withTiles false) hmachine hinverse r rest q hright
          fun part hpart hsub => treats_ne_skip_of_fill hfill hpart hsub
      refine ⟨_, hreaches, rfl, ?_, hleft', hright'⟩
      rw [action?_eq (t := t.withTiles true) hinverse, hfill] at haction
      cases haction
      exact (hsettles₁.skipped.trans hskipped).trans hskipped'.symm
    · obtain ⟨q', after', hfinish', hsettles'⟩ :=
        finish?_settles (t := t.withTiles false) hmachine hinverse r how q hright
      have hplain : (t.withTiles false).action? source r = .ok (.finish how) := by
        rw [action?_withTiles hinverse fun state h => hfill ⟨state, h⟩, haction]
      refine ⟨_, .single (.finish hplain hfinish'), rfl, ?_, hleft',
        hsettles'.background.trans hright⟩
      show p'.skipped = q'.skipped
      rw [hsettles₁.skipped, hsettles'.skipped]
      cases how with
      | skip => exact congrArg _ hskipped
      | fill state => exact hskipped
      | sample => exact hskipped

theorem Stage.Matches.of_reaches (hmachine : t.machine = .ideal)
    (hinverse : t.resampler.inverse = some inv) {s s' u : Stage V m}
    (h : s.Matches source.background u)
    (hreaches : Reaches (t.withTiles true) (.same V) (fun _ => source) s s') :
    ∃ u', Reaches (t.withTiles false) (.same V) (fun _ => source) u u' ∧
      s'.Matches source.background u' := by
  induction hreaches with
  | refl => exact ⟨u, .refl, h⟩
  | tail _ hstep ih =>
    obtain ⟨u', hreaches', hmatches⟩ := ih
    obtain ⟨u'', hreaches'', hmatches'⟩ := hmatches.step hmachine hinverse hstep
    exact ⟨u'', hreaches'.trans hreaches'', hmatches'⟩

end SparseVoxel.Traversal

/-! ## Whole passes -/

namespace SparseVoxel.Resampler

variable {K : Type} [Field K] [LinearOrder K] [IsStrictOrderedRing K] [FloorRing K]
variable {V : Type} {k m : Nat} [BEq V] [LawfulBEq V] [VoxelValue K V] [ExactValue K V] [Sized V]

/-- **Copying tiles agrees with sampling.** The two passes skip as many regions, and they leave the
same at every voxel, unless three voxels are blended on each axis; then a voxel at which they differ
gets the state of the nearest voxel of the source where tiles are copied. -/
theorem transform_withTiles {r : Resampler K} {inv : Matrix4 K} (hinverse : r.inverse = some inv)
    {margin : Int} (hmargin : r.margin = .ok (.int margin)) (sampler : Sampler)
    (source : Grid V k) (dest : Grid V m) (hbackground : dest.background = source.background) :
    ∃ stats after stats' after',
      transform { r with copyTiles := true } .ideal sampler (.same V) (fun _ => source) dest =
        .ok stats after ∧
      transform { r with copyTiles := false } .ideal sampler (.same V) (fun _ => source) dest =
        .ok stats' after' ∧
      stats.skipped = stats'.skipped ∧
      ∀ y, after.read y = after'.read y ∨ sampler = .quadratic ∧
        after.read y = source.read (Sampler.nearest (inv.apply y.toScalars)) := by
  cases hactive : source.activeBox? with
  | none =>
    exact ⟨.none, dest, .none, dest, transform_of_inactive _ sampler (.same V) hactive,
      transform_of_inactive _ sampler (.same V) hactive, rfl, fun _ => Or.inl rfl⟩
  | some active =>
    obtain ⟨reach, p, after, hreach, hne, hpass, hreaches⟩ := transform_eq_ok
      (r := { r with copyTiles := true }) hinverse hmargin sampler hbackground hactive
    obtain ⟨reach', p', after', hreach', -, hpass', hreaches'⟩ := transform_eq_ok
      (r := { r with copyTiles := false }) hinverse hmargin sampler hbackground hactive
    cases Except.ok.inj (hreach.symm.trans hreach')
    refine ⟨_, after, _, after', hpass, hpass', ?_, fun y => ?_⟩
    · obtain ⟨⟨pending, q, dest'⟩, hplain, hmatches⟩ := Traversal.Stage.Matches.of_reaches
        (t := ⟨r, sampler, .ideal⟩) (u := .start reach dest) rfl hinverse
        ⟨rfl, rfl, hbackground, hbackground⟩ hreaches
      cases hmatches.pending
      have hsame := (Traversal.run_of_reaches hplain).symm.trans
        (Traversal.run_of_reaches hreaches')
      cases hsame
      exact congrArg List.length hmatches.skipped
    · by_cases hy : y ∈ reach
      · obtain ⟨region, hregion, hread⟩ :=
          Traversal.exists_settled rfl hinverse hbackground hne hreaches hy
        obtain ⟨region', hregion', hread'⟩ :=
          Traversal.exists_settled rfl hinverse hbackground hne hreaches' hy
        rw [hread, hread', Traversal.settled_eq_written hregion' (Traversal.treats_ne_fill rfl)]
        exact Traversal.settled_withTiles (t := ⟨r, sampler, .ideal⟩) hregion (dest.read y)
      · left
        rw [(Traversal.Stage.confined_of_reaches (.of_ideal rfl reach) hne hreaches).frame y hy,
          (Traversal.Stage.confined_of_reaches (.of_ideal rfl reach) hne hreaches').frame y hy]

/-- A grid with one active tile, mapped onto a lattice twice as fine. -/
theorem transform_withTiles_of_tile :
    let source : Grid Int32 3 := (Grid.empty 0).fill (Box.ofBlock 3 ⟨0, -1, 2⟩) ⟨7, true⟩
    let dest : Grid Int32 2 := .empty 0
    let inv : Matrix4 ℚ := .scaling ⟨1 / 2, 1 / 2, 1 / 2⟩
    let r : Resampler ℚ := ⟨.scaling ⟨2, 2, 2⟩, some inv, true, true, .ok (.int 1), none⟩
    ∃ stats after stats' after',
      transform { r with copyTiles := true } .ideal .box (.same Int32) (fun _ => source) dest =
        .ok stats after ∧
      transform { r with copyTiles := false } .ideal .box (.same Int32) (fun _ => source) dest =
        .ok stats' after' ∧
      stats.skipped = stats'.skipped ∧
      ∀ y, after.read y = after'.read y ∨ Sampler.box = .quadratic ∧
        after.read y = source.read (Sampler.nearest (inv.apply y.toScalars)) :=
  transform_withTiles rfl rfl .box _ _ (by decide)

end SparseVoxel.Resampler

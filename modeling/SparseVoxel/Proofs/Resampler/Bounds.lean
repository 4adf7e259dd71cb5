import SparseVoxel.Proofs.Box.Halving
import SparseVoxel.Proofs.Grid.Window
import SparseVoxel.Proofs.Resampler.Coverage

/-!
# What is read for a region

A region is sampled only if it lies in one block of the size of the blocks of the source, and if its
window is small or it is a single voxel (`Traversal.sampleable_of_refine?`). The window of a single
voxel is bounded by itself, because the image of a voxel is one point and the box around it has at
most two voxels on each axis. No step counts another region as sampled (`Stage.Bounded.step`), so
during a pass no array is read that is much larger than the stencils of the region, however many
voxels of the source the map may skip: this is `Traversal.windows_bounded`. The machine does not
matter, nor whether the source is the destination itself.
-/

namespace SparseVoxel

/-! ## Boxes and regions -/

theorem Box.get_expand (b : Box) (n : Int) (axis : Axis) :
    (b.expand n).lo.get axis = b.lo.get axis - n ∧ (b.expand n).hi.get axis = b.hi.get axis + n :=
  ⟨Vec3.get_map _ _ _, Vec3.get_map _ _ _⟩

/-- A box that is short on every axis has no more voxels than a cube. -/
theorem Box.volume_le_pow {b : Box} {n : Nat} (h : ∀ axis, b.hi.get axis < b.lo.get axis + n) :
    b.volume ≤ n ^ 3 := by
  have hx := h .x
  have hy := h .y
  have hz := h .z
  simp only [Vec3.get] at hx hy hz
  simp only [volume, dim, Vec3.zipWith]
  calc (b.hi.x - b.lo.x + 1).toNat * (b.hi.y - b.lo.y + 1).toNat * (b.hi.z - b.lo.z + 1).toNat
      ≤ n * n * n := Nat.mul_le_mul (Nat.mul_le_mul (by omega) (by omega)) (by omega)
    _ = n ^ 3 := by rw [Nat.pow_succ, Nat.pow_two]

theorem Grid.size_of_window? {V : Type} {k : Nat} [Sized V] {machine : Machine} {g : Grid V k}
    {box : Box} {w : Window V} (h : g.window? machine box = .ok w) : w.cells.size = box.volume := by
  obtain ⟨-, -, h⟩ := bind_eq_ok.mp h
  cases h
  rw [window_eq_windowOf, size_windowOf]

theorem Region.split?_eq_none_iff {r : Region} {k : Nat} :
    r.split? k = none ↔ r.box.InOneBlock k := by
  rw [← Box.split?_eq_none_iff r.nonempty]
  unfold split?
  split
  · next hnone => exact iff_of_true rfl hnone
  · next hsome => exact iff_of_false nofun (by rw [hsome]; nofun)

theorem Region.ext_box {r q : Region} (h : r.box = q.box) : r = q := by
  cases r
  cases q
  cases h
  rfl

/-- A region that cannot be halved into voxels is a voxel. -/
theorem Region.single_of_split?_zero {r : Region} (h : r.split? 0 = none) :
    ∃ c, r.box = ⟨c, c⟩ := by
  have hcorner := (split?_eq_none_iff.mp h).lo_eq_hi r.nonempty
  exact ⟨r.box.lo, Box.ext rfl hcorner.symm⟩

namespace Traversal

variable {K V W : Type} {k m : Nat} [Scalar K]

/-! ## Windows -/

/-- The window of a single voxel has at most two voxels on each axis besides the padding. -/
theorem volume_windowBox?_single [OrderedScalar K] [SteadyScalar K] {t : Traversal K k} {c : Coord}
    {window : Box} (h : t.windowBox? ⟨c, c⟩ = .ok window) :
    window.volume ≤ (2 * t.sampler.radius + 4) ^ 3 := by
  obtain ⟨seen, hseen, h⟩ := bind_eq_ok.mp h
  cases h
  unfold Resampler.preimage? at hseen
  split at hseen
  · refine Box.volume_le_pow fun axis => ?_
    have hle := Affine.hi_le_of_imageBox?_single hseen axis
    obtain ⟨hlo, hhi⟩ := seen.get_expand (t.sampler.radius + 1) axis
    rw [hlo, hhi]
    omega
  · obtain ⟨scalars, -, hseen⟩ := bind_eq_ok.mp hseen
    cases hseen

/-- A region that lies in one block and has a window that is bounded by the stencils of its voxels,
or is a single voxel with a window of its own bound. What is read for it is a copy of the window. -/
structure Sampleable (V : Type) [Sized V] (t : Traversal K k) (r : Region) : Prop where
  one_block : r.box.InOneBlock k
  window : ∃ window, t.windowBox? r.box = .ok window ∧
    (∀ (g : Grid V k) copy, g.window? t.machine window = .ok copy →
      copy.cells.size = window.volume) ∧
    (window.volume ≤ 4 * r.volume * (2 * t.sampler.radius + 2) ^ 3 ∨
      r.volume = 1 ∧ window.volume ≤ (2 * t.sampler.radius + 4) ^ 3)

/-- A region is counted as sampled only if it is sampled. -/
theorem sampled_of_finish? [BEq V] [VoxelValue K V] [Sized V] [BEq W] [Sized W]
    {t : Traversal K k} {transfer : Transfer V W} {source : Grid V k} {r : Region}
    {p p' : Progress} {how : Treatment V} {dest dest' : Grid W m}
    (h : t.finish? transfer source r p how dest = .ok p' dest') :
    p'.sampled = p.sampled ∨ how = .sample ∧ p'.sampled = r :: p.sampled := by
  cases how with
  | skip =>
    cases h
    exact Or.inl rfl
  | fill state =>
    obtain ⟨rfl, -⟩ := fill_of_finish? h
    exact Or.inl rfl
  | sample =>
    obtain ⟨_, _, -, -, rfl, -⟩ := sample_of_finish? h
    exact Or.inr ⟨rfl, rfl⟩

/-! ## What is done about a region -/

variable [OrderedScalar K] [SteadyScalar K] {t : Traversal K k}

/-- A region that is not halved any more may be sampled. -/
theorem sampleable_of_refine? [Sized V] {r : Region} {how : Treatment V}
    (h : t.refine? r = .ok (.finish how)) : t.Sampleable V r := by
  unfold refine? at h
  split at h
  · cases h
  · next hblock =>
    obtain ⟨window, hwindow, h⟩ := bind_eq_ok.mp h
    refine ⟨Region.split?_eq_none_iff.mp hblock, window, hwindow,
      fun g copy hcopy => Grid.size_of_window? hcopy, ?_⟩
    split at h
    · split at h
      · cases h
      · next hvoxel =>
        obtain ⟨c, hc⟩ := Region.single_of_split?_zero hvoxel
        refine Or.inr ⟨?_, ?_⟩
        · rw [Region.volume, hc]
          exact Box.volume_eq_one rfl
        · rw [hc] at hwindow
          exact volume_windowBox?_single hwindow
    · next hlimit =>
      refine Or.inl ?_
      rw [windowLimit] at hlimit
      rw [Nat.pow_succ, Nat.pow_two]
      exact Nat.le_of_not_lt hlimit

theorem sampleable_of_action? [BEq V] [Sized V] {source : Grid V k} {r : Region}
    (h : t.action? source r = .ok (.finish .sample)) : t.Sampleable V r := by
  obtain ⟨how, -, h⟩ := bind_eq_ok.mp h
  cases how with
  | skip => cases h
  | fill state => cases h
  | sample => exact sampleable_of_refine? h

/-! ## Passes -/

section Stages

variable [BEq V] [VoxelValue K V] [Sized V] [BEq W] [Sized W]
variable {transfer : Transfer V W} {source : Grid W m → Grid V k}

/-- Every region that has been sampled could be. -/
def Stage.Bounded (t : Traversal K k) (V : Type) [Sized V] (s : Stage W m) : Prop :=
  ∀ r ∈ s.progress.sampled, t.Sampleable V r

theorem Stage.Bounded.step {s s' : Stage W m} (hbounded : s.Bounded t V)
    (hstep : Step t transfer source s s') : s'.Bounded t V := by
  cases hstep with
  | split haction => exact hbounded
  | @finish r rest p p' dest dest' how haction hfinish =>
    intro q hq
    rcases sampled_of_finish? hfinish with hsame | ⟨rfl, hsampled⟩
    · exact hbounded q (hsame ▸ hq)
    · rcases List.mem_cons.mp (hsampled ▸ hq) with rfl | hq
      · exact sampleable_of_action? haction
      · exact hbounded q hq

theorem Stage.Bounded.of_reaches {reach : Box} {dest : Grid W m} {s : Stage W m}
    (h : Reaches t transfer source (.start reach dest) s) : s.Bounded t V := by
  induction h with
  | refl => exact fun r hr => absurd hr List.not_mem_nil
  | tail _ hstep ih => exact ih.step hstep

/-- **Sampling reads bounded windows.** At every stage of a pass each region that has been sampled,
or is sampled next, lies in one block, and its window has at most four times as many voxels as the
stencils of the region, or is that of a single voxel. -/
theorem windows_bounded {reach : Box} {dest : Grid W m} {s : Stage W m}
    (h : Reaches t transfer source (.start reach dest) s) :
    (∀ r ∈ s.progress.sampled, t.Sampleable V r) ∧
      ∀ r rest, s.pending = r :: rest → t.action? (source s.dest) r = .ok (.finish .sample) →
        t.Sampleable V r :=
  ⟨Stage.Bounded.of_reaches h, fun _ _ _ => sampleable_of_action?⟩

end Stages

/-! ## A map that leaves out voxels -/

/-- Whether a region is to be sampled. -/
def Action.isSample {r : Region} : Action V r → Bool
  | .finish .sample => true
  | _ => false

theorem Action.eq_sample {r : Region} {action : Action V r} (h : action.isSample = true) :
    action = .finish .sample := by
  unfold isSample at h
  split at h
  · rfl
  · cases h

/-- The box of the upper half, of a region that is replaced by its halves. -/
def Action.upperBox? {r : Region} : Action V r → Option Box
  | .split halves => some halves.upper.box
  | .finish _ => none

theorem Action.exists_split {r : Region} {action : Action V r} {b : Box}
    (h : action.upperBox? = some b) : ∃ halves, action = .split halves ∧ halves.upper.box = b := by
  cases action with
  | split halves => exact ⟨halves, rfl, Option.some.inj h⟩
  | finish how => cases h

/-- A map under which a voxel looks at a point far from that of its neighbour, so that two voxels
are sampled apart. The window of a single voxel has 64 voxels, more than those of four stencils. -/
theorem windows_bounded_of_downsampling :
    let source : Grid Int32 3 := (Grid.empty 0).write ⟨64, 0, 0⟩ ⟨7, true⟩
    let inv : Matrix4 Float :=
      ⟨⟨⟨64, 0, 0⟩, ⟨0, 1, 0⟩, ⟨0, 0, 1⟩⟩, ⟨0.5, 0.5, 0.5⟩, ⟨0, 0, 0⟩, 1⟩
    let t : Traversal Float 3 := ⟨⟨.one, some inv, false, true, .ok (.int 1), none⟩, .point, .ideal⟩
    let dest : Grid Int32 3 := .empty 0
    ∃ s r rest, Reaches t (.same Int32) (fun _ => source)
        (.start ⟨⟨0, 0, 0⟩, ⟨1, 0, 0⟩⟩ dest) s ∧
      s.pending = r :: rest ∧ t.action? source r = .ok (.finish .sample) ∧
      t.windowBox? r.box = .ok ⟨⟨63, -1, -1⟩, ⟨66, 2, 2⟩⟩ ∧ t.windowLimit r.box = 32 ∧
      t.Sampleable Int32 r := by
  intro source inv t dest
  let both : Region := ⟨⟨⟨0, 0, 0⟩, ⟨1, 0, 0⟩⟩, by decide⟩
  let single : Region := ⟨⟨⟨1, 0, 0⟩, ⟨1, 0, 0⟩⟩, by decide⟩
  have hboth : (t.action? source both).toOption.bind Action.upperBox? = some single.box := by
    decide +kernel
  have hsingle : (t.action? source single).toOption.any Action.isSample = true := by
    decide +kernel
  have hwindow : (t.windowBox? single.box).toOption = some ⟨⟨63, -1, -1⟩, ⟨66, 2, 2⟩⟩ := by
    decide +kernel
  obtain ⟨_, hsplit, hbox⟩ := Option.bind_eq_some_iff.mp hboth
  obtain ⟨halves, rfl, hupper⟩ := Action.exists_split hbox
  obtain ⟨_, haction, hsample⟩ := (Option.any_eq_true _ _).mp hsingle
  rw [Action.eq_sample hsample] at haction
  have hregion : halves.upper = single := Region.ext_box hupper
  rw [← hregion] at haction hwindow
  have hreaches : Reaches t (.same Int32) (fun _ => source)
      (.start ⟨⟨0, 0, 0⟩, ⟨1, 0, 0⟩⟩ dest) ⟨[halves.upper, halves.lower], .start, dest⟩ :=
    .single (.split (eq_ok_of_toOption hsplit))
  have hlimit : t.windowLimit halves.upper.box = 32 := by
    rw [hupper]
    decide
  have haction := eq_ok_of_toOption haction
  exact ⟨_, halves.upper, [halves.lower], hreaches, rfl, haction, eq_ok_of_toOption hwindow,
    hlimit, (windows_bounded hreaches).2 _ _ rfl haction⟩

end Traversal

end SparseVoxel

import SparseVoxel.Proofs.Resampler.Coverage
import SparseVoxel.Proofs.Grid.Uniform
import SparseVoxel.Proofs.Sampler.Uniform

/-!
# A round of a pass in exact arithmetic

In exact arithmetic nothing is refused: the part of the source that a region looks at is the image
of the region (`preimage?_eq_ok`), it is treated by what is found there (`treatment?_eq_ok`), and
its samples are those of the view of the source (`samples?_eq_ok`). A region that is skipped sees
nothing but unset voxels (`read_of_skip`), and one that is filled looks into voxels of one state
only (`read_of_fill`). What finishing a region leaves at its voxels is `settled`.
-/

namespace SparseVoxel.Traversal

variable {K : Type} [Field K] [LinearOrder K] [FloorRing K] {V : Type} {k m : Nat}

/-! ## What a region looks at -/

theorem preimage?_eq_ok {r : Resampler K} {inv : Matrix4 K} (hinverse : r.inverse = some inv)
    (region : Box) : r.preimage? region = .ok (Affine.imageBox inv region) := by
  unfold Resampler.preimage?
  rw [hinverse]
  exact Affine.imageBox?_eq_ok (fun _ => rfl) inv region

theorem windowBox?_eq_ok {t : Traversal K k} {inv : Matrix4 K}
    (hinverse : t.resampler.inverse = some inv) (region : Box) :
    t.windowBox? region = .ok ((Affine.imageBox inv region).expand (t.sampler.radius + 1)) := by
  unfold windowBox?
  rw [preimage?_eq_ok hinverse]
  rfl

theorem refine?_cases {t : Traversal K k} {inv : Matrix4 K}
    (hinverse : t.resampler.inverse = some inv) (r : Region) :
    (∃ halves, t.refine? r = .ok (.split halves : Action V r)) ∨
      t.refine? r = .ok (.finish .sample : Action V r) := by
  unfold refine?
  split
  · exact Or.inl ⟨_, rfl⟩
  · rw [windowBox?_eq_ok hinverse]
    simp only [bind, Except.bind]
    split
    · split
      · exact Or.inl ⟨_, rfl⟩
      · exact Or.inr rfl
    · exact Or.inr rfl

/-! ## How a region is treated -/

section Treatment

variable [BEq V]

/-- How a region is treated, given what it looks at. -/
def treatmentOf (copyTiles : Bool) (source : Grid V k) (seen : Box) (radius : Int) : Treatment V :=
  if (source.uniform? (seen.expand radius) false).any source.isUnset then .skip
  else if copyTiles then
    match source.uniform? seen true with
    | some state => if source.isUnset state then .sample else .fill state
    | none => .sample
  else .sample

/-- Treatment without the copying of tiles differs only where a region is filled. -/
theorem treatmentOf_false (source : Grid V k) (seen : Box) (radius : Int) :
    treatmentOf false source seen radius =
      match treatmentOf true source seen radius with
      | .skip => .skip
      | _ => .sample := by
  unfold treatmentOf
  split
  · rfl
  · rw [if_neg Bool.false_ne_true, if_pos rfl]
    cases source.uniform? seen true with
    | none => rfl
    | some state => cases hunset : source.isUnset state <;> simp [hunset]

/-- How a pass treats a region. -/
def treats (t : Traversal K k) (inv : Matrix4 K) (source : Grid V k) (region : Box) :
    Treatment V :=
  treatmentOf t.resampler.copyTiles source (Affine.imageBox inv region) t.sampler.radius

theorem treats_ne_fill {t : Traversal K k} (htiles : t.resampler.copyTiles = false)
    {inv : Matrix4 K} {source : Grid V k} {region : Box} (state : Voxel V) :
    t.treats inv source region ≠ .fill state := by
  rw [treats, htiles, treatmentOf_false]
  split <;> nofun

variable [LawfulBEq V]

theorem read_of_skip {copyTiles : Bool} {source : Grid V k} {seen : Box} {radius : Int}
    (h : treatmentOf copyTiles source seen radius = .skip) :
    ∀ c ∈ seen.expand radius, source.read c = source.unset := by
  unfold treatmentOf at h
  split at h
  · next hany =>
    cases hfound : source.uniform? (seen.expand radius) false with
    | none =>
      rw [hfound] at hany
      cases hany
    | some state =>
      rw [hfound] at hany
      intro c hc
      rw [Grid.read_of_uniform? hfound hc]
      exact Voxel.eq_of_same (Or.inr hany)
  · split at h
    · split at h
      · split at h <;> cases h
      · cases h
    · cases h

/-- A region that is filled looks into voxels of one state, which is not that of unset voxels. -/
theorem read_of_fill {copyTiles : Bool} {source : Grid V k} {seen : Box} {radius : Int}
    {state : Voxel V} (h : treatmentOf copyTiles source seen radius = .fill state) :
    source.isUnset state = false ∧ ∀ c ∈ seen, source.read c = state := by
  unfold treatmentOf at h
  split at h
  · cases h
  · split at h
    · split at h
      · next state' hstate =>
        split at h
        · cases h
        · next hunset =>
          cases h
          exact ⟨Bool.eq_false_iff.mpr hunset, fun c hc => Grid.read_of_uniform? hstate hc⟩
      · cases h
    · cases h

end Treatment

/-! ## What is done about a region -/

variable [IsStrictOrderedRing K]

/-- The image of a voxel of a region lies in what the region looks at. -/
theorem within_imageBox (inv : Matrix4 K) {region : Box} {y : Coord} (hy : y ∈ region) :
    Sampler.Within (Affine.imageBox inv region) (inv.apply y.toScalars) :=
  Affine.imageBox_of_mem inv hy

theorem nonempty_imageBox (inv : Matrix4 K) {region : Box} (h : region.Nonempty) :
    (Affine.imageBox inv region).Nonempty :=
  Box.nonempty_of_mem (Sampler.nearest_mem (within_imageBox inv (Box.lo_mem h)))

section Action

variable [BEq V] {t : Traversal K k} {inv : Matrix4 K}

theorem treatment?_eq_ok {r : Resampler K} (hinverse : r.inverse = some inv)
    (source : Grid V k) {region : Box} (hregion : region.Nonempty) (radius : Nat) :
    r.treatment? source region radius =
      .ok (treatmentOf r.copyTiles source (Affine.imageBox inv region) radius) := by
  have hseen := nonempty_imageBox inv hregion
  have haround := examine?_eq_ok source (nonempty_expand hseen (Int.natCast_nonneg radius)) false
  have htiles := examine?_eq_ok source hseen true
  unfold Resampler.treatment? treatmentOf
  simp only [preimage?_eq_ok hinverse, haround, htiles, bind, Except.bind]
  split
  · rfl
  · cases hfound : source.uniform? (Affine.imageBox inv region) true with
    | none =>
      split
      · rfl
      · rfl
    | some state =>
      split
      · rfl
      · rfl

theorem action?_eq (hinverse : t.resampler.inverse = some inv) (source : Grid V k) (r : Region) :
    t.action? source r =
      match t.treats inv source r.box with
      | .sample => t.refine? r
      | how => .ok (.finish how) := by
  unfold action? treats
  rw [treatment?_eq_ok hinverse source r.nonempty]
  cases treatmentOf t.resampler.copyTiles source (Affine.imageBox inv r.box) t.sampler.radius with
  | skip => rfl
  | fill state => rfl
  | sample => rfl

/-- Nothing is refused: a region is halved, or it is finished as it is to be treated. -/
theorem action?_cases (hinverse : t.resampler.inverse = some inv) (source : Grid V k)
    (r : Region) :
    (∃ halves, t.action? source r = .ok (.split halves)) ∨
      t.action? source r = .ok (.finish (t.treats inv source r.box)) := by
  rw [action?_eq hinverse]
  cases t.treats inv source r.box with
  | skip => exact Or.inr rfl
  | fill state => exact Or.inr rfl
  | sample => exact refine?_cases hinverse r

end Action

/-! ## What finishing a region leaves -/

section Finish

variable [VoxelValue K V]

/-- The sample of a source that a voxel of the destination looks at. -/
def sampleOf (s : Sampler) (inv : Matrix4 K) (source : Grid V k) (y : Coord) : Voxel V :=
  s.sampleAt source.read (inv.apply y.toScalars)

variable [Sized V] {t : Traversal K k} {inv : Matrix4 K}

theorem samples?_eq_ok (hmachine : t.machine = .ideal) (hinverse : t.resampler.inverse = some inv)
    (source : Grid V k) (region : Box) :
    t.samples? source region =
      .ok (region.coords.map fun y => (y, sampleOf t.sampler inv source y)) := by
  have hsample : ∀ y ∈ region.coords,
      t.sampler.readWindow? (source.window
        ((Affine.imageBox inv region).expand (t.sampler.radius + 1)))
        (inv.apply y.toScalars -
          ((Affine.imageBox inv region).expand (t.sampler.radius + 1)).lo.toScalars) =
        .ok (sampleOf t.sampler inv source y) := by
    intro y hy
    have hwithin := within_imageBox inv (Box.mem_coords.mp hy)
    refine Sampler.readWindow?_eq_ok t.sampler source fun o ho => ?_
    refine Box.mem_expand_of_le ?_ (Sampler.mem_expand_of_stencil t.sampler hwithin ho)
    omega
  unfold samples?
  rw [hmachine, hinverse]
  refine bind_eq_ok.mpr ⟨region.coords, rfl, ?_⟩
  refine bind_eq_ok.mpr ⟨_, windowBox?_eq_ok hinverse region, ?_⟩
  refine bind_eq_ok.mpr ⟨_, rfl, mapM_eq_ok fun y hy => ?_⟩
  rw [Grid.box_window]
  exact bind_eq_ok.mpr ⟨_, hsample y hy, rfl⟩

variable [BEq V]

/-- What writing a sample leaves over an old state: only what is worth writing is written. -/
def written (background : V) (new old : Voxel V) : Voxel V :=
  if Transfer.worth background new then new else old

/-- What a treatment leaves at a voxel. -/
def settled (s : Sampler) (inv : Matrix4 K) (source : Grid V k) (how : Treatment V) (y : Coord)
    (old : Voxel V) : Voxel V :=
  match how with
  | .skip => old
  | .fill state => state
  | .sample => written source.background (sampleOf s inv source y) old

/-- What finishing a region comes to. -/
structure Settles (s : Sampler) (inv : Matrix4 K) (source : Grid V k) (r : Region)
    (how : Treatment V) (p p' : Progress) (dest dest' : Grid V m) : Prop where
  background : dest'.background = dest.background
  skipped : p'.skipped = match how with
    | .skip => r :: p.skipped
    | _ => p.skipped
  finished : ∀ q, q ∈ p'.finished ↔ q = r ∨ q ∈ p.finished
  read_eq : ∀ y, dest'.read y =
    if y ∈ r.box then settled s inv source how y (dest.read y) else dest.read y

/-- A region is finished without being refused. -/
theorem finish?_settles [LawfulBEq V] (hmachine : t.machine = .ideal)
    (hinverse : t.resampler.inverse = some inv) {source : Grid V k} (r : Region)
    (how : Treatment V) (p : Progress) {dest : Grid V m}
    (hbackground : dest.background = source.background) :
    ∃ p' dest', t.finish? (.same V) source r p how dest = .ok p' dest' ∧
      Settles t.sampler inv source r how p p' dest dest' := by
  cases how with
  | skip =>
    refine ⟨_, _, finish?_skip r p dest, rfl, rfl, fun q => ?_, fun y => ?_⟩
    · simp only [Progress.finished, List.cons_append, List.mem_cons]
    · simp only [settled, ite_self]
  | fill state =>
    rw [finish?_fill (.of_ideal hmachine V m)]
    refine ⟨_, _, rfl, ?_, rfl, fun q => ?_, Grid.read_fill dest r.box state⟩
    · exact congrArg Voxel.value (Grid.unset_fill dest r.box state)
    · simp only [Progress.finished, List.mem_append, List.mem_cons]
      tauto
  | sample =>
    rw [finish?_sample (.of_ideal hmachine V m), samples?_eq_ok hmachine hinverse]
    simp only [writes?_same]
    refine ⟨_, _, rfl, Grid.background_writeAll _ _, rfl, fun q => ?_, fun y => ?_⟩
    · simp only [Progress.finished, List.mem_append, List.mem_cons]
      tauto
    · rw [Grid.read_writeAll, overwrite_filter_map (Box.nodup_coords r.box)]
      simp only [settled, written, Box.mem_coords, hbackground, ite_and]

end Finish

end SparseVoxel.Traversal

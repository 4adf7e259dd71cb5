import SparseVoxel.Proofs.Grid.Filling
import SparseVoxel.Proofs.Grid.Grouping
import SparseVoxel.Proofs.Lists
import SparseVoxel.Proofs.Machine
import SparseVoxel.Resampler.Traversal

/-!
# Finishing a region

A region that is finished is finished by a plain operation on the destination, whatever the machine
(`fill_of_finish?`, `sample_of_finish?`), and where there is room for the leaves of the destination
it is refused, if it is, before anything is written (`finish?_fill`, `finish?_sample`). Where the
machine lists the voxels of a region as they are, its samples stand at these, in their order
(`coords_of_samples?`), and the writes they amount to stand at some of them (`of_writes?`). Where
samples are moved one by one (`Transfer.Pointwise`), as between grids of one type, these are the
voxels whose samples are worth writing (`writes?_eq`).
-/

namespace SparseVoxel

/-! ## Transfers -/

namespace Transfer

variable {V W : Type}

/-- Samples are moved one by one: each is compared with a value that stands for the background of
the destination, and then converted. -/
structure Pointwise [BEq V] (transfer : Transfer V W) (background : W) (seen : V)
    (convert : V → W) : Prop where
  keep : ∀ samples, transfer.keep background samples = .ok (samples.map (worth seen))
  store : ∀ values, transfer.store values = .ok (values.map convert)

theorem pointwise_same [BEq V] (background : V) : (same V).Pointwise background background id where
  keep _ := rfl
  store values := congrArg Except.ok (List.map_id values).symm

/-- Between types with as many components, if the background fits into the type of the samples and
every sample into the type of the destination. -/
theorem pointwise_between {s t : ValueKind} (hwidth : s.isVector = t.isVector)
    {background : t.Value} {seen : s.Value} {convert : s.Value → t.Value}
    (hseen : s.castSeparately? (t.numbers background) = .ok seen)
    (hconvert : ∀ v, t.cast? (s.nested v) = .ok (convert v)) :
    (between s t).Pointwise background seen convert where
  keep samples := by
    have hmixed : (t.isVector && !s.isVector) = false := by
      rw [hwidth]
      cases t.isVector <;> rfl
    simp only [between, hmixed, Bool.false_eq_true, if_false, hseen]
    rfl
  store values := by
    simp only [between, hwidth, if_true]
    exact mapM_eq_ok fun v _ => hconvert v

end Transfer

namespace Traversal

variable {K V W : Type} {k m : Nat} [Scalar K]

/-! ## Samples and writes -/

section Samples

variable [VoxelValue K V] [Sized V] {t : Traversal K k} {source : Grid V k}

theorem coords_of_samples? {region : Box} (hlist : t.machine.Enumerates region)
    {samples : List (Coord × Voxel V)} (h : t.samples? source region = .ok samples) :
    samples.map Prod.fst = region.coords := by
  unfold samples? at h
  obtain ⟨coords, hcoords, h⟩ := bind_eq_ok.mp h
  rw [← hlist coords hcoords]
  split at h
  · cases h
  · obtain ⟨box, -, h⟩ := bind_eq_ok.mp h
    obtain ⟨window, -, h⟩ := bind_eq_ok.mp h
    refine map_eq_of_forall₂ ((forall₂_of_mapM_eq_ok h).imp fun c sample hsample => ?_)
    obtain ⟨v, -, hsample⟩ := bind_eq_ok.mp hsample
    cases hsample
    rfl

theorem length_of_samples? {region : Region} (hlist : t.machine.Enumerates region.box)
    {samples : List (Coord × Voxel V)} (h : t.samples? source region.box = .ok samples) :
    samples.length = region.volume := by
  rw [← List.length_map (f := Prod.fst), coords_of_samples? hlist h, Box.length_coords]
  rfl

end Samples

/-- Samples that are kept are written where they were taken, one write for each at most. -/
theorem of_writes? {transfer : Transfer V W} {background : W} {samples : List (Coord × Voxel V)}
    {writes : List (Coord × Voxel W)} (h : writes? transfer background samples = .ok writes) :
    writes.length ≤ samples.length ∧ ∀ w ∈ writes, w.1 ∈ samples.map Prod.fst := by
  obtain ⟨flags, -, h⟩ := bind_eq_ok.mp h
  obtain ⟨values, -, h⟩ := bind_eq_ok.mp h
  cases h
  have hsub := kept_sublist samples flags
  constructor
  · rw [List.length_zipWith]
    exact Nat.le_trans (Nat.min_le_left _ _) hsub.length_le
  · intro w hw
    obtain ⟨sample, hsample, value, -, rfl⟩ := exists_mem_of_mem_zipWith hw
    exact List.mem_map_of_mem (hsub.subset hsample)

/-- Only the state of an unset voxel is not worth writing. -/
theorem worth_eq_not_isUnset [BEq V] (g : Grid V k) (v : Voxel V) :
    Transfer.worth g.background v = !g.isUnset v := by
  show (v.active || !(v.value == g.background)) =
    !(v.value == g.background && v.active == false)
  cases v.active <;> cases v.value == g.background <;> rfl

/-- Samples that are moved one by one are written where they are worth it. -/
theorem writes?_eq [BEq V] {transfer : Transfer V W} {background : W} {seen : V} {convert : V → W}
    (h : transfer.Pointwise background seen convert) (samples : List (Coord × Voxel V)) :
    writes? transfer background samples =
      .ok ((samples.filter fun s => Transfer.worth seen s.2).map
        fun s => (s.1, ⟨convert s.2.value, s.2.active⟩)) := by
  have hkept : ((samples.zip ((samples.map Prod.snd).map (Transfer.worth seen))).filterMap
      fun p => if p.2 then some p.1 else none) =
        samples.filter fun s => Transfer.worth seen s.2 := by
    rw [List.map_map]
    induction samples with
    | nil => rfl
    | cons s samples ih =>
      rw [List.map_cons, List.zip_cons_cons, List.filterMap_cons, ih, List.filter_cons]
      cases hworth : Transfer.worth seen s.2 <;> simp [hworth]
  have hstored : ∀ kept : List (Coord × Voxel V), kept.zipWith
      (fun s value => (s.1, (⟨value, s.2.active⟩ : Voxel W)))
        ((kept.map fun s => s.2.value).map convert) =
      kept.map fun s => (s.1, ⟨convert s.2.value, s.2.active⟩) := by
    intro kept
    induction kept with
    | nil => rfl
    | cons s kept ih =>
      simp only [List.map_cons, List.zipWith_cons_cons]
      exact congrArg _ ih
  unfold writes?
  simp only [h.keep, h.store, bind, Except.bind]
  rw [hkept]
  exact congrArg Except.ok (hstored _)

/-- Between grids of one type the writes are the samples that are worth writing. -/
theorem writes?_same [BEq V] (background : V) (samples : List (Coord × Voxel V)) :
    writes? (.same V) background samples =
      .ok (samples.filter fun s => Transfer.worth background s.2) :=
  (writes?_eq (Transfer.pointwise_same background) samples).trans
    (congrArg Except.ok (List.map_id' _))

/-! ## Finished regions -/

section Finished

variable [VoxelValue K V] [Sized V] [BEq W] [Sized W] {t : Traversal K k}
variable {transfer : Transfer V W} {source : Grid V k} {r : Region} {p p' : Progress}
variable {dest dest' : Grid W m}

theorem finish?_skip (r : Region) (p : Progress) (dest : Grid W m) :
    t.finish? transfer source r p .skip dest = .ok { p with skipped := r :: p.skipped } dest :=
  rfl

/-- A region that is filled is filled with a state that can be stored. -/
theorem fill_of_finish? {state : Voxel V}
    (h : t.finish? transfer source r p (.fill state) dest = .ok p' dest') :
    p' = { p with filled := r :: p.filled } ∧ ∃ v, transfer.fill state.value = .ok v ∧
      dest' = dest.fill r.box ⟨v, state.active⟩ := by
  obtain ⟨_, dest₁, hfill, hafter⟩ := Grid.Attempt.bind_eq_ok.mp h
  obtain ⟨v, hv, -, rfl⟩ := (Grid.fill?_eq_ok_iff r.nonempty).mp hfill
  cases hafter
  exact ⟨rfl, v, hv, rfl⟩

/-- A region that is sampled has samples that can be taken and stored. -/
theorem sample_of_finish? (h : t.finish? transfer source r p .sample dest = .ok p' dest') :
    ∃ samples writes, t.samples? source r.box = .ok samples ∧
      writes? transfer dest.background samples = .ok writes ∧
      p' = { p with sampled := r :: p.sampled, written := p.written + writes.length } ∧
      dest' = dest.writeAll writes := by
  obtain ⟨samples, hsamples, h⟩ := Grid.Attempt.check_bind_eq_ok.mp h
  obtain ⟨_, dest₁, hget, h⟩ := Grid.Attempt.bind_eq_ok.mp h
  cases hget
  obtain ⟨writes, hwrites, h⟩ := Grid.Attempt.check_bind_eq_ok.mp h
  obtain ⟨_, dest₂, hall, hafter⟩ := Grid.Attempt.bind_eq_ok.mp h
  cases hafter
  exact ⟨samples, writes, hsamples, hwrites, rfl, Grid.eq_of_writeAll? hall⟩

variable (hroom : t.machine.HasRoom W m)

include hroom

/-- Where there is room, a region is filled unless the state cannot be stored. -/
theorem finish?_fill (r : Region) (p : Progress) (state : Voxel V) (dest : Grid W m) :
    t.finish? transfer source r p (.fill state) dest =
      match transfer.fill state.value with
      | .ok v => .ok { p with filled := r :: p.filled } (dest.fill r.box ⟨v, state.active⟩)
      | .error e => .error e dest := by
  refine (Grid.Attempt.bind_eq
    (Grid.fill? t.machine r.box (transfer.fill state.value) state.active) _ dest).trans ?_
  rw [Grid.fill?_eq hroom, Box.isEmpty_eq_false.mpr r.nonempty]
  cases transfer.fill state.value with
  | error e => rfl
  | ok v => rfl

/-- Where there is room, a region is sampled unless a sample cannot be taken or stored. -/
theorem finish?_sample (r : Region) (p : Progress) (dest : Grid W m) :
    t.finish? transfer source r p .sample dest =
      match t.samples? source r.box with
      | .error e => .error e dest
      | .ok samples =>
        match writes? transfer dest.background samples with
        | .error e => .error e dest
        | .ok writes =>
          .ok { p with sampled := r :: p.sampled, written := p.written + writes.length }
            (dest.writeAll writes) := by
  refine (Grid.Attempt.check_bind (t.samples? source r.box) _ dest).trans ?_
  cases t.samples? source r.box with
  | error e => rfl
  | ok samples =>
    refine (Grid.Attempt.check_bind (writes? transfer dest.background samples) _ dest).trans ?_
    cases hwrites : writes? transfer dest.background samples with
    | error e => simp only [hwrites]
    | ok writes =>
      simp only [hwrites]
      exact Grid.Attempt.bind_of_eq_ok (Grid.writeAll?_eq_ok hroom writes dest)

end Finished

end Traversal

end SparseVoxel

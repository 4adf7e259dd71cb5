import SparseVoxel.Proofs.Affine.Tight
import SparseVoxel.Proofs.Grid.Probe
import SparseVoxel.Proofs.Resampler.Exact

/-!
# What parts of a region inherit

In exact arithmetic, and where all values are numbers, the treatment of a region is passed on to
its parts: what a part looks at lies in what the region looks at (`Affine.mem_imageBox_of_part`),
and a part of a uniform box is uniform (`Grid.uniform?_of_part`). So it does not matter where a
traversal happens to halve a region that it could have finished. `treatment?_inherited` is the main
statement.
-/

namespace SparseVoxel

/-- Expanding keeps a part of a box within the box. -/
theorem Box.mem_expand_of_part {part whole : Box} (hpart : part.Nonempty)
    (hsub : ∀ c ∈ part, c ∈ whole) {n : Int} {c : Coord} (hc : c ∈ part.expand n) :
    c ∈ whole.expand n := by
  obtain ⟨⟨hlx, -⟩, ⟨hly, -⟩, hlz, -⟩ := hsub _ (lo_mem hpart)
  obtain ⟨⟨-, hhx⟩, ⟨-, hhy⟩, -, hhz⟩ := hsub _ (hi_mem hpart)
  obtain ⟨hx, hy, hz⟩ := hc
  simp only [expand, Vec3.map] at hx hy hz
  refine ⟨⟨?_, ?_⟩, ⟨?_, ?_⟩, ?_, ?_⟩ <;> simp only [expand, Vec3.map] <;> omega

namespace Grid

variable {V : Type} {k : Nat} [BEq V] [PartialEquivBEq V] {g : Grid V k} {box part : Box}
variable {tilesOnly : Bool} {state : Voxel V}

/-- All values of a grid are numbers. -/
def IsNumeric (g : Grid V k) : Prop :=
  ∀ c, (g.read c == g.read c) = true

theorem beq_of_uniform? (hnumeric : g.IsNumeric) (h : g.uniform? box tilesOnly = some state)
    {c : Coord} (hc : c ∈ box) : (g.read c == state) = true :=
  PartialEquivBEq.symm ((same_of_uniform? h hc).symm.beq (hnumeric c))

/-- A part of a uniform box is uniform, of an equal state. -/
theorem uniform?_of_part (hnumeric : g.IsNumeric) (hpart : part.Nonempty)
    (hsub : ∀ c ∈ part, c ∈ box) (h : g.uniform? box tilesOnly = some state) :
    ∃ state', g.uniform? part tilesOnly = some state' ∧ (state' == state) = true := by
  cases hfound : g.uniform? part tilesOnly with
  | some state' =>
    have hlo := Box.lo_mem hpart
    refine ⟨state', rfl, PartialEquivBEq.trans ?_ (beq_of_uniform? hnumeric h (hsub _ hlo))⟩
    exact PartialEquivBEq.symm (beq_of_uniform? hnumeric hfound hlo)
  | none =>
    rcases of_uniform?_eq_none hpart (fun c _ => hnumeric c) hfound with hvaries | ⟨rfl, hleaf⟩
    · obtain ⟨c, hc, d, hd, hne⟩ := hvaries
      have hcd : (g.read c == g.read d) = true :=
        PartialEquivBEq.trans (beq_of_uniform? hnumeric h (hsub c hc))
          (PartialEquivBEq.symm (beq_of_uniform? hnumeric h (hsub d hd)))
      rw [hcd] at hne
      cases hne
    · obtain ⟨c, hc, hcells⟩ := hleaf
      rw [uniform?_of_meetsLeaf ⟨c, hsub c hc, hcells⟩] at h
      cases h

/-- Whether a state is that of unset voxels is the same for equal states. -/
theorem isUnset_congr {state' : Voxel V} (h : (state' == state) = true) :
    g.isUnset state' = g.isUnset state := by
  rw [Bool.eq_iff_iff]
  exact ⟨fun hset => PartialEquivBEq.trans (PartialEquivBEq.symm h) hset,
    fun hset => PartialEquivBEq.trans h hset⟩

end Grid

namespace Traversal

variable {V : Type} {k : Nat} [BEq V] {source : Grid V k} {copyTiles : Bool} {seen part : Box}
variable {radius : Int} {state : Voxel V}

/-! ## Treatments by what is seen -/

theorem treatmentOf_eq_skip_iff : treatmentOf copyTiles source seen radius = .skip ↔
    ∃ state, source.uniform? (seen.expand radius) false = some state ∧
      source.isUnset state = true := by
  rw [← Option.any_eq_true]
  unfold treatmentOf
  split
  · next hany => exact iff_of_true rfl hany
  · next hany =>
    refine iff_of_false ?_ hany
    split
    · split
      · split <;> nofun
      · nofun
    · nofun

theorem treatmentOf_eq_fill_iff : treatmentOf copyTiles source seen radius = .fill state ↔
    copyTiles = true ∧ treatmentOf copyTiles source seen radius ≠ .skip ∧
      source.uniform? seen true = some state ∧ source.isUnset state = false := by
  constructor
  · intro h
    have hskip : treatmentOf copyTiles source seen radius ≠ .skip := by
      rw [h]
      nofun
    unfold treatmentOf at h
    split at h
    · cases h
    · split at h
      · next htiles =>
        split at h
        · next hfound =>
          split at h
          · cases h
          · next hset =>
            cases h
            exact ⟨htiles, hskip, hfound, Bool.eq_false_of_not_eq_true hset⟩
        · cases h
      · cases h
  · rintro ⟨htiles, hskip, hfound, hset⟩
    have hany : ¬(source.uniform? (seen.expand radius) false).any source.isUnset = true := fun h =>
      hskip (treatmentOf_eq_skip_iff.mpr ((Option.any_eq_true _ _).mp h))
    unfold treatmentOf
    rw [if_neg hany, if_pos htiles, hfound]
    exact if_neg (ne_true_of_eq_false hset)

variable [PartialEquivBEq V]

/-- Around a part of what is skipped everything is unset too. -/
theorem treatmentOf_part_of_skip (hnumeric : source.IsNumeric) (hradius : 0 ≤ radius)
    (hpart : part.Nonempty) (hsub : ∀ c ∈ part, c ∈ seen)
    (h : treatmentOf copyTiles source seen radius = .skip) :
    treatmentOf copyTiles source part radius = .skip := by
  obtain ⟨state, hfound, hunset⟩ := treatmentOf_eq_skip_iff.mp h
  obtain ⟨state', hfound', heq⟩ := Grid.uniform?_of_part hnumeric (nonempty_expand hpart hradius)
    (fun c hc => Box.mem_expand_of_part hpart hsub hc) hfound
  exact treatmentOf_eq_skip_iff.mpr ⟨state', hfound', (Grid.isUnset_congr heq).trans hunset⟩

/-- A part of what is filled is filled with an equal state. It is not skipped, because it holds a
voxel of that state, which is not unset. -/
theorem treatmentOf_part_of_fill (hnumeric : source.IsNumeric) (hradius : 0 ≤ radius)
    (hpart : part.Nonempty) (hsub : ∀ c ∈ part, c ∈ seen)
    (h : treatmentOf copyTiles source seen radius = .fill state) :
    ∃ state', treatmentOf copyTiles source part radius = .fill state' ∧
      (state' == state) = true := by
  obtain ⟨htiles, -, hfound, hset⟩ := treatmentOf_eq_fill_iff.mp h
  obtain ⟨state', hfound', heq⟩ := Grid.uniform?_of_part hnumeric hpart hsub hfound
  have hset' : source.isUnset state' = false := (Grid.isUnset_congr heq).trans hset
  refine ⟨state', treatmentOf_eq_fill_iff.mpr ⟨htiles, fun hskip => ?_, hfound', hset'⟩, heq⟩
  obtain ⟨around, haround, hunset⟩ := treatmentOf_eq_skip_iff.mp hskip
  have hlo := Box.lo_mem hpart
  have hread := Grid.beq_of_uniform? hnumeric haround (Box.mem_expand hradius hlo)
  have hsame : (state' == around) = true := PartialEquivBEq.trans
    (PartialEquivBEq.symm (Grid.beq_of_uniform? hnumeric hfound' hlo)) hread
  rw [Grid.isUnset_congr hsame, hunset] at hset'
  cases hset'

end Traversal

/-! ## The main statement -/

namespace Resampler

variable {K : Type} [Field K] [LinearOrder K] [FloorRing K] [IsStrictOrderedRing K]
variable {V : Type} {k : Nat} [BEq V] [PartialEquivBEq V]

/-- **The treatment of a region is inherited by its parts.** In exact arithmetic and for a source of
numbers, what a part of a region looks at lies in what the region looks at. If the region is skipped
then so is the part, and if it is filled then the part is filled with an equal state. -/
theorem treatment?_inherited {r : Resampler K} {inv : Matrix4 K} (hinverse : r.inverse = some inv)
    {source : Grid V k} (hnumeric : source.IsNumeric) (radius : Nat) {region part : Box}
    (hpart : part.Nonempty) (hsub : ∀ c ∈ part, c ∈ region) :
    (∃ whole seen, r.preimage? region = .ok whole ∧ r.preimage? part = .ok seen ∧
      ∀ c ∈ seen, c ∈ whole) ∧
    (r.treatment? source region radius = .ok .skip →
      r.treatment? source part radius = .ok .skip) ∧
    ∀ state, r.treatment? source region radius = .ok (.fill state) →
      ∃ state', r.treatment? source part radius = .ok (.fill state') ∧
        (state' == state) = true := by
  have hregion : region.Nonempty := Box.nonempty_of_mem (hsub _ (Box.lo_mem hpart))
  have hseen := Traversal.nonempty_imageBox inv hpart
  have hwithin : ∀ c ∈ Affine.imageBox inv part, c ∈ Affine.imageBox inv region := fun _ =>
    Affine.mem_imageBox_of_part inv hpart hsub
  have hradius : (0 : Int) ≤ radius := Int.natCast_nonneg radius
  rw [Traversal.treatment?_eq_ok hinverse source hregion,
    Traversal.treatment?_eq_ok hinverse source hpart]
  refine ⟨⟨_, _, Traversal.preimage?_eq_ok hinverse region, Traversal.preimage?_eq_ok hinverse part,
    hwithin⟩, fun hskip => ?_, fun state hfill => ?_⟩
  · have hpassed := Traversal.treatmentOf_part_of_skip hnumeric hradius hseen hwithin
      (Except.ok.inj hskip)
    exact congrArg Except.ok hpassed
  · obtain ⟨state', hpassed, heq⟩ := Traversal.treatmentOf_part_of_fill hnumeric hradius hseen
      hwithin (Except.ok.inj hfill)
    exact ⟨state', congrArg Except.ok hpassed, heq⟩

/-- A region that looks into two tiles of one state, turned and stretched, and a part of it. -/
theorem treatment?_inherited_of_two_tiles :
    let source : Grid Int32 2 := (Grid.empty 0).fill ⟨⟨0, -4, 0⟩, ⟨7, -1, 3⟩⟩ ⟨7, true⟩
    let inv : Matrix4 ℚ := .affine ⟨⟨0, 3 / 2, 0⟩, ⟨-1, 0, 0⟩, ⟨0, 0, 1⟩⟩ ⟨1 / 2, 0, 0⟩
    let r : Resampler ℚ := ⟨.one, some inv, true, true, .ok (.int 1), none⟩
    let radius : Nat := 1
    let region : Box := ⟨⟨1, 0, 0⟩, ⟨4, 4, 3⟩⟩
    let part : Box := ⟨⟨2, 1, 1⟩, ⟨3, 1, 1⟩⟩
    source.IsNumeric ∧ part.Nonempty ∧ (∀ c ∈ part, c ∈ region) ∧
      r.treatment? source region radius = .ok (.fill ⟨7, true⟩) ∧
      ∃ state', r.treatment? source part radius = .ok (.fill state') ∧
        (state' == (⟨7, true⟩ : Voxel Int32)) = true := by
  intro source inv r radius region part
  have hnumeric : source.IsNumeric := fun c => beq_self_eq_true (source.read c)
  have hpart : part.Nonempty := by decide
  have hsub : ∀ c ∈ part, c ∈ region := fun c ⟨hx, hy, hz⟩ => by
    simp only [part] at hx hy hz
    exact ⟨by simp only [region]; omega, by simp only [region]; omega,
      by simp only [region]; omega⟩
  have hfill : r.treatment? source region radius = .ok (.fill ⟨7, true⟩) := by
    have hregion : region.Nonempty := by decide
    have hbox : Affine.imageBox inv region = ⟨⟨0, -4, 0⟩, ⟨7, -1, 3⟩⟩ := by decide +kernel
    have haround : source.uniform? ⟨⟨-1, -5, -1⟩, ⟨8, 0, 4⟩⟩ false = none := by decide +kernel
    have htiles : source.uniform? ⟨⟨0, -4, 0⟩, ⟨7, -1, 3⟩⟩ true = some ⟨7, true⟩ := by
      decide +kernel
    refine (Traversal.treatment?_eq_ok (r := r) rfl source hregion radius).trans
      (congrArg Except.ok ?_)
    rw [hbox]
    refine Traversal.treatmentOf_eq_fill_iff.mpr ⟨rfl, fun hskip => ?_, htiles, rfl⟩
    obtain ⟨state, hfound, -⟩ := Traversal.treatmentOf_eq_skip_iff.mp hskip
    exact nomatch haround.symm.trans hfound
  exact ⟨hnumeric, hpart, hsub, hfill,
    (treatment?_inherited rfl hnumeric radius hpart hsub).2.2 _ hfill⟩

end Resampler

end SparseVoxel

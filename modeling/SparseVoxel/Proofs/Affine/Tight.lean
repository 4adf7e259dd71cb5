import Mathlib.Data.Rat.Floor
import SparseVoxel.Proofs.Lists
import SparseVoxel.Proofs.Sampler.Reading
import SparseVoxel.Resampler.Basic

/-!
# Tight images

In exact arithmetic the bounds of the image of a box are the best there are. Each of them is an
entry of the image of a corner (`exists_corner_eq_boundImage`), and the corners lie in the box
(`between_of_mem_corners`). So the image of a part of a box is bounded by that of the whole, and
rounding outward keeps this (`mem_imageBox_of_part`).

`boundImage_tight` is the main statement. It also says that what a resampler looks at for a region
encloses the image of every position in the region, be it the centre of a voxel or not.
-/

namespace SparseVoxel

/-- A position between two others on every axis. -/
def Vec3.Between {K : Type} [LE K] (lo hi p : Vec3 K) : Prop :=
  ∀ axis, lo.get axis ≤ p.get axis ∧ p.get axis ≤ hi.get axis

namespace Affine

variable {K : Type} [Field K] [LinearOrder K] [FloorRing K]

/-! ## Bounds that are attained -/

/-- The bounds of an image are entries of the images of corners. -/
theorem exists_corner_eq_boundImage (lo hi : Vec3 K) (m : Matrix4 K) (axis : Axis) :
    (∃ c ∈ corners lo hi, (m.apply c).get axis = (boundImage lo hi m).1.get axis) ∧
      ∃ c ∈ corners lo hi, (m.apply c).get axis = (boundImage lo hi m).2.get axis := by
  have hentry : ∀ a, a ∈ ((corners lo hi).map m.apply).map (·.get axis) →
      ∃ c ∈ corners lo hi, (m.apply c).get axis = a := by
    intro a ha
    obtain ⟨q, hq, rfl⟩ := List.mem_map.mp ha
    obtain ⟨c, hc, rfl⟩ := List.mem_map.mp hq
    exact ⟨c, hc, rfl⟩
  obtain ⟨p, ps, hcorners⟩ : ∃ p ps, (corners lo hi).map m.apply = p :: ps := ⟨_, _, rfl⟩
  rw [hcorners] at hentry
  simp only [boundImage, hcorners, bounds, get_foldl_zipWith]
  constructor
  · refine hentry _ (foldl_mem_of_select (fun a b => ?_) _ _)
    rw [Exact.least_eq]
    exact min_choice a b
  · refine hentry _ (foldl_mem_of_select (fun a b => ?_) _ _)
    rw [Exact.greatest_eq]
    exact max_choice a b

theorem between_of_mem_corners {lo hi c : Vec3 K} (h : ∀ axis, lo.get axis ≤ hi.get axis)
    (hc : c ∈ corners lo hi) : Vec3.Between lo hi c := by
  obtain ⟨bits, hbits, rfl⟩ := List.mem_map.mp hc
  intro axis
  have hget : (corner lo hi bits).get axis =
      lo.get axis + bits.get axis * (hi.get axis - lo.get axis) := by cases axis <;> rfl
  rw [hget]
  rcases List.mem_pair.mp (bits_of_mem hbits axis) with hbit | hbit
  · rw [hbit, Exact.ofInt_eq, Int.cast_zero, zero_mul, add_zero]
    exact ⟨le_refl _, h axis⟩
  · rw [hbit, Exact.ofInt_eq, Int.cast_one, one_mul, add_sub_cancel]
    exact ⟨h axis, le_refl _⟩

/-- Each bound of the image of a box is attained by a position in the box. -/
theorem exists_between_eq_boundImage {lo hi : Vec3 K} (h : ∀ axis, lo.get axis ≤ hi.get axis)
    (m : Matrix4 K) (axis : Axis) :
    (∃ p, Vec3.Between lo hi p ∧ (m.apply p).get axis = (boundImage lo hi m).1.get axis) ∧
      ∃ p, Vec3.Between lo hi p ∧ (m.apply p).get axis = (boundImage lo hi m).2.get axis := by
  obtain ⟨⟨c, hc, hleast⟩, d, hd, hgreatest⟩ := exists_corner_eq_boundImage lo hi m axis
  exact ⟨⟨c, between_of_mem_corners h hc, hleast⟩, d, between_of_mem_corners h hd, hgreatest⟩

/-- The positions in a box of voxels are those between its corners. -/
theorem between_toScalars_iff {b : Box} {p : Vec3 K} :
    Vec3.Between b.lo.toScalars b.hi.toScalars p ↔ Sampler.Within b p := by
  refine forall_congr' fun axis => ?_
  rw [get_toScalars, get_toScalars]

/-! ## Parts of a box -/

variable [IsStrictOrderedRing K]

/-- The rounded image of a part of a box of voxels lies in that of the whole. -/
theorem mem_imageBox_of_part (m : Matrix4 K) {part whole : Box} (hpart : part.Nonempty)
    (hsub : ∀ c ∈ part, c ∈ whole) {c : Coord} (hc : c ∈ imageBox m part) :
    c ∈ imageBox m whole := by
  have horder : ∀ axis, (part.lo.toScalars : Vec3 K).get axis ≤
      (part.hi.toScalars : Vec3 K).get axis := by
    intro axis
    rw [get_toScalars, get_toScalars]
    exact Int.cast_le.mpr (Box.mem_iff_get.mp (Box.hi_mem hpart) axis).1
  have hbetween : ∀ p : Vec3 K, Vec3.Between part.lo.toScalars part.hi.toScalars p →
      Sampler.Within (imageBox m whole) (m.apply p) := by
    intro p hp
    refine imageBox_of_between m fun axis => ?_
    have hlo := (Box.mem_iff_get.mp (hsub _ (Box.lo_mem hpart)) axis).1
    have hhi := (Box.mem_iff_get.mp (hsub _ (Box.hi_mem hpart)) axis).2
    obtain ⟨hleast, hgreatest⟩ := between_toScalars_iff.mp hp axis
    exact ⟨(Int.cast_le.mpr hlo).trans hleast, hgreatest.trans (Int.cast_le.mpr hhi)⟩
  refine Box.mem_iff_get.mpr fun axis => ?_
  obtain ⟨⟨p, hp, hleast⟩, q, hq, hgreatest⟩ := exists_between_eq_boundImage horder m axis
  obtain ⟨hlo, hhi⟩ := Box.mem_iff_get.mp hc axis
  have hfloor : (imageBox m whole).lo.get axis ≤ (imageBox m part).lo.get axis := by
    have hget : (imageBox m part).lo.get axis =
        ⌊(boundImage (part.lo.toScalars : Vec3 K) part.hi.toScalars m).1.get axis⌋ :=
      Vec3.get_map _ _ _
    rw [hget, ← hleast]
    exact Int.le_floor.mpr (hbetween p hp axis).1
  have hceil : (imageBox m part).hi.get axis ≤ (imageBox m whole).hi.get axis := by
    have hget : (imageBox m part).hi.get axis =
        ⌈(boundImage (part.lo.toScalars : Vec3 K) part.hi.toScalars m).2.get axis⌉ :=
      Vec3.get_map _ _ _
    rw [hget, ← hgreatest]
    exact Int.ceil_le.mpr (hbetween q hq axis).2
  exact ⟨hfloor.trans hlo, hhi.trans hceil⟩

/-! ## The main statement -/

/-- A box of voxels that is what a resampler looks at for a region, and that encloses the images of
all positions in the region, those of the centres of its voxels among them. -/
structure IsFootprint (m : Matrix4 K) (region footprint : Box) : Prop where
  imageBox?_eq : imageBox? m region = .ok footprint
  preimage?_eq : ∀ r : Resampler K, r.inverse = some m → r.preimage? region = .ok footprint
  within_of_position : ∀ p, Sampler.Within region p → Sampler.Within footprint (m.apply p)
  within_of_voxel : ∀ c ∈ region, Sampler.Within footprint (m.apply c.toScalars)

theorem isFootprint_imageBox (m : Matrix4 K) (region : Box) :
    IsFootprint m region (imageBox m region) where
  imageBox?_eq := imageBox?_eq_ok (fun _ => rfl) m region
  preimage?_eq r hinverse := by
    unfold Resampler.preimage?
    rw [hinverse]
    exact imageBox?_eq_ok (fun _ => rfl) m region
  within_of_position _ hp := imageBox_of_between m hp
  within_of_voxel _ hc := imageBox_of_mem m hc

/-- **The box around an image is the tightest.** Whatever the matrix, singular or not, the image of
every position in a box lies between the bounds of the image, and on each axis both bounds are
attained. Where the corners of the box are those of a region of voxels, the bounds rounded outward
give what a resampler looks at for the region, which encloses the image of every position in it. -/
theorem boundImage_tight (m : Matrix4 K) {lo hi : Vec3 K}
    (h : ∀ axis, lo.get axis ≤ hi.get axis) :
    (∀ p, Vec3.Between lo hi p →
      Vec3.Between (boundImage lo hi m).1 (boundImage lo hi m).2 (m.apply p)) ∧
    (∀ axis,
      (∃ p, Vec3.Between lo hi p ∧ (m.apply p).get axis = (boundImage lo hi m).1.get axis) ∧
      ∃ p, Vec3.Between lo hi p ∧ (m.apply p).get axis = (boundImage lo hi m).2.get axis) ∧
    ∀ region : Box, region.lo.toScalars = lo → region.hi.toScalars = hi →
      IsFootprint m region (Box.roundOut (boundImage lo hi m).1 (boundImage lo hi m).2) := by
  refine ⟨fun _ hp => boundImage_of_between m hp, exists_between_eq_boundImage h m, ?_⟩
  rintro region rfl rfl
  exact isFootprint_imageBox m region

/-- A matrix of rank one that maps three axes onto a line, and a flat region. -/
theorem boundImage_tight_of_rank_one :
    let m : Matrix4 ℚ := .affine ⟨⟨1, -2, 0⟩, ⟨-2, 4, 0⟩, ⟨0, 0, 0⟩⟩ ⟨1 / 2, 0, -1⟩
    let region : Box := ⟨⟨-1, 0, 2⟩, ⟨3, 2, 2⟩⟩
    let bounds := boundImage region.lo.toScalars region.hi.toScalars m
    m.invert? = none ∧ bounds = (⟨-9 / 2, -6, -1⟩, ⟨7 / 2, 10, -1⟩) ∧
      (∀ p, Vec3.Between region.lo.toScalars region.hi.toScalars p →
        Vec3.Between bounds.1 bounds.2 (m.apply p)) ∧
      (∀ axis, ∃ p, Vec3.Between region.lo.toScalars region.hi.toScalars p ∧
        (m.apply p).get axis = bounds.2.get axis) ∧
      IsFootprint m region ⟨⟨-5, -6, -1⟩, ⟨4, 10, -1⟩⟩ := by
  intro m region bounds
  have horder : ∀ axis, (region.lo.toScalars : Vec3 ℚ).get axis ≤
      (region.hi.toScalars : Vec3 ℚ).get axis := Axis.forall_iff.mpr (by decide)
  obtain ⟨hbetween, hattained, hfootprint⟩ := boundImage_tight m horder
  have hrounded : Box.roundOut bounds.1 bounds.2 = ⟨⟨-5, -6, -1⟩, ⟨4, 10, -1⟩⟩ := by decide +kernel
  exact ⟨by decide +kernel, by decide +kernel, hbetween, fun axis => (hattained axis).2,
    hrounded ▸ hfootprint region rfl rfl⟩

end Affine

end SparseVoxel

import SparseVoxel.Proofs.Scalar.Exact
import SparseVoxel.Affine.Basic
import SparseVoxel.Proofs.Box.Enumeration
import SparseVoxel.Proofs.Lists
import SparseVoxel.Proofs.Outcome

/-!
# Images of boxes

Rounding the image of a box outward gives a box that is not empty, over all scalars that compare
as numbers do (`nonempty_imageBox?`): the least and the greatest of the images of the corners are
in order. The box around the image of a single voxel has at most two voxels on each axis, because
all its corners are one point (`hi_le_of_imageBox?_single`). In exact arithmetic the image of every
point of a box lies between these bounds (`boundImage_of_between`), because each entry of the image
is a linear form and so least and greatest at a corner; rounding outward then leaves it within the
box of voxels (`imageBox_of_mem`).
-/

namespace SparseVoxel

/-! ## Rounding outward -/

theorem Vec3.get_of_mapM_eq_ok {ε α β : Type} {f : α → Except ε β} {v : Vec3 α} {w : Vec3 β}
    (h : v.mapM f = .ok w) (axis : Axis) : f (v.get axis) = .ok (w.get axis) := by
  unfold mapM at h
  obtain ⟨x, hx, h⟩ := bind_eq_ok.mp h
  obtain ⟨y, hy, h⟩ := bind_eq_ok.mp h
  obtain ⟨z, hz, h⟩ := bind_eq_ok.mp h
  cases h
  revert axis
  exact Axis.forall_iff.mpr ⟨hx, hy, hz⟩

namespace Scalar

variable {K : Type} [Scalar K]

theorem isFinite_of_requireFinite {a : K} (h : requireFinite a = .ok ()) : isFinite a = true := by
  unfold requireFinite at h
  split at h
  · assumption
  · split at h <;> cases h

theorem floor_of_floor? {a : K} {n : Int} (h : floor? a = .ok n) :
    isFinite a = true ∧ floor a = n := by
  obtain ⟨_, hfinite, h⟩ := bind_eq_ok.mp h
  cases h
  exact ⟨isFinite_of_requireFinite hfinite, rfl⟩

theorem ceil_of_ceil? {a : K} {n : Int} (h : ceil? a = .ok n) :
    isFinite a = true ∧ ceil a = n := by
  obtain ⟨_, hfinite, h⟩ := bind_eq_ok.mp h
  cases h
  exact ⟨isFinite_of_requireFinite hfinite, rfl⟩

end Scalar

/-- A box that is rounded outward has the floors and the ceilings of its bounds for corners. -/
theorem Box.get_of_roundOut? {K : Type} [Scalar K] {lo hi : Vec3 K} {b : Box}
    (h : roundOut? lo hi = .ok b) (axis : Axis) :
    (Scalar.isFinite (lo.get axis) = true ∧ Scalar.floor (lo.get axis) = b.lo.get axis) ∧
      Scalar.isFinite (hi.get axis) = true ∧ Scalar.ceil (hi.get axis) = b.hi.get axis := by
  obtain ⟨l, hlo, h⟩ := bind_eq_ok.mp h
  obtain ⟨u, hhi, h⟩ := bind_eq_ok.mp h
  cases h
  exact ⟨Scalar.floor_of_floor? (Vec3.get_of_mapM_eq_ok hlo axis),
    Scalar.ceil_of_ceil? (Vec3.get_of_mapM_eq_ok hhi axis)⟩

namespace Affine

/-! ## Bounds of an image -/

section Ordered

variable {K : Type} [Scalar K]

theorem get_foldl_zipWith {α : Type} (f : α → α → α) (p : Vec3 α) (ps : List (Vec3 α))
    (axis : Axis) :
    (ps.foldl (Vec3.zipWith f) p).get axis = (ps.map (·.get axis)).foldl f (p.get axis) := by
  induction ps generalizing p with
  | nil => rfl
  | cons q ps ih => rw [List.foldl_cons, ih, Vec3.get_zipWith, List.map_cons, List.foldl_cons]

variable [OrderedScalar K]

theorem nonempty_roundOut?_boundImage {lo hi : Vec3 K} {m : Matrix4 K} {b : Box}
    (h : Box.roundOut? (boundImage lo hi m).1 (boundImage lo hi m).2 = .ok b) : b.Nonempty := by
  refine Box.nonempty_of_get fun axis => ?_
  obtain ⟨⟨hlo, hfloor⟩, hhi, hceil⟩ := Box.get_of_roundOut? h axis
  rw [← hfloor, ← hceil]
  -- the corners of a box are eight, so their images have a first one
  obtain ⟨p, ps, hcorners⟩ : ∃ p ps, (corners lo hi).map m.apply = p :: ps := ⟨_, _, rfl⟩
  simp only [boundImage, hcorners, bounds, get_foldl_zipWith] at hlo hhi ⊢
  exact Scalar.floor_least_le _ hlo hhi

/-- Where the image of a box of voxels is bounded, the box around it is not empty. -/
theorem nonempty_imageBox? {m : Matrix4 K} {b image : Box} (h : imageBox? m b = .ok image) :
    image.Nonempty := by
  obtain ⟨corners, -, h⟩ := bind_eq_ok.mp h
  exact nonempty_roundOut?_boundImage h

end Ordered

/-! ## The image of a single voxel -/

section Single

variable {K : Type} [Scalar K]

theorem bits_of_mem {bits : Vec3 K} (h : bits ∈ cornerBits) (axis : Axis) :
    bits.get axis ∈ [Scalar.ofInt 0, (Scalar.ofInt 1 : K)] := by
  obtain ⟨x, hx, h⟩ := List.mem_flatMap.mp h
  obtain ⟨y, hy, h⟩ := List.mem_flatMap.mp h
  obtain ⟨z, hz, rfl⟩ := List.mem_map.mp h
  revert axis
  exact Axis.forall_iff.mpr ⟨hx, hy, hz⟩

theorem isFinite_of_toScalars? {c : Coord} {p : Vec3 K} (h : c.toScalars? = .ok p) (axis : Axis) :
    Scalar.isFinite (p.get axis) = true := by
  have hget := Vec3.get_of_mapM_eq_ok h axis
  unfold Scalar.ofInt? at hget
  split at hget
  · next hfinite =>
    rw [← Except.ok.inj hget]
    exact hfinite
  · cases hget

variable [SteadyScalar K]

/-- All corners of a box of one point are one point. -/
theorem corner_self {p bits : Vec3 K} (hp : ∀ axis, Scalar.isFinite (p.get axis) = true)
    (hbits : bits ∈ cornerBits) : corner p p bits = corner p p (.replicate (Scalar.ofInt 0)) := by
  refine Vec3.ext_get fun axis => ?_
  have hget : ∀ bits : Vec3 K, (corner p p bits).get axis =
      p.get axis + bits.get axis * (p.get axis - p.get axis) := fun _ => by cases axis <;> rfl
  have hzero : (Vec3.replicate (Scalar.ofInt 0) : Vec3 K).get axis = Scalar.ofInt 0 := by
    cases axis <;> rfl
  rw [hget, hget, hzero]
  rcases List.mem_pair.mp (bits_of_mem hbits axis) with h | h
  · rw [h]
  · rw [h, SteadyScalar.mul_sub_self (hp axis)]

variable [OrderedScalar K]

theorem hi_le_of_boundImage_self {p : Vec3 K} {m : Matrix4 K} {b : Box}
    (hp : ∀ axis, Scalar.isFinite (p.get axis) = true)
    (h : Box.roundOut? (boundImage p p m).1 (boundImage p p m).2 = .ok b) (axis : Axis) :
    b.hi.get axis ≤ b.lo.get axis + 1 := by
  have hsame : ∀ q ∈ (corners p p).map m.apply,
      q = m.apply (corner p p (.replicate (Scalar.ofInt 0))) := by
    intro q hq
    obtain ⟨corner, hcorner, rfl⟩ := List.mem_map.mp hq
    obtain ⟨bits, hbits, rfl⟩ := List.mem_map.mp hcorner
    rw [corner_self hp hbits]
  obtain ⟨⟨hlo, hfloor⟩, -, hceil⟩ := Box.get_of_roundOut? h axis
  rw [← hfloor, ← hceil]
  obtain ⟨q, qs, hcorners⟩ : ∃ q qs, (corners p p).map m.apply = q :: qs := ⟨_, _, rfl⟩
  rw [hcorners] at hsame
  obtain ⟨hq, hqs⟩ := List.forall_mem_cons.mp hsame
  have hget : ∀ a ∈ qs.map (·.get axis), a = q.get axis := by
    intro a ha
    obtain ⟨q', hq', rfl⟩ := List.mem_map.mp ha
    rw [hqs q' hq', hq]
  simp only [boundImage, hcorners, bounds, get_foldl_zipWith] at hlo ⊢
  obtain ⟨hleast, hgreatest⟩ := Scalar.foldl_of_isFinite hget hlo
  rw [hleast] at hlo ⊢
  rw [hgreatest]
  exact SteadyScalar.ceil_le hlo

/-- The box around the image of a single voxel has at most two voxels on each axis. -/
theorem hi_le_of_imageBox?_single {m : Matrix4 K} {c : Coord} {image : Box}
    (h : imageBox? m ⟨c, c⟩ = .ok image) (axis : Axis) :
    image.hi.get axis ≤ image.lo.get axis + 1 := by
  obtain ⟨scalars, hscalars, h⟩ := bind_eq_ok.mp h
  obtain ⟨p, hp, hscalars⟩ := bind_eq_ok.mp hscalars
  have hsame : scalars = (p, p) := by
    rw [hp] at hscalars
    exact (Except.ok.inj hscalars).symm
  subst hsame
  exact hi_le_of_boundImage_self (isFinite_of_toScalars? hp) h axis

end Single

/-! ## Images in exact arithmetic -/

section Exact

variable {K : Type} [Field K] [LinearOrder K] [FloorRing K]

theorem foldl_least_le_of_mem {a b : K} {as : List K} (h : b ∈ a :: as) :
    as.foldl Scalar.least a ≤ b := by
  refine foldl_of_mem (R := fun a b : K => a ≤ b) le_refl le_trans (fun a b => ?_) (fun a b => ?_) h
  · rw [Exact.least_eq]
    exact min_le_left a b
  · rw [Exact.least_eq]
    exact min_le_right a b

theorem le_foldl_greatest_of_mem {a b : K} {as : List K} (h : b ∈ a :: as) :
    b ≤ as.foldl Scalar.greatest a := by
  refine foldl_of_mem (R := fun a b : K => b ≤ a) le_refl (fun hab hbc => le_trans hbc hab)
    (fun a b => ?_) (fun a b => ?_) h
  · rw [Exact.greatest_eq]
    exact le_max_left a b
  · rw [Exact.greatest_eq]
    exact le_max_right a b

theorem boundImage_of_corner {lo hi c : Vec3 K} (m : Matrix4 K) (hc : c ∈ corners lo hi)
    (axis : Axis) :
    (boundImage lo hi m).1.get axis ≤ (m.apply c).get axis ∧
      (m.apply c).get axis ≤ (boundImage lo hi m).2.get axis := by
  have hmem := List.mem_map_of_mem (f := m.apply) hc
  obtain ⟨p, ps, hcorners⟩ : ∃ p ps, (corners lo hi).map m.apply = p :: ps := ⟨_, _, rfl⟩
  rw [hcorners] at hmem
  have hget := List.mem_map_of_mem (f := (·.get axis)) hmem
  simp only [boundImage, hcorners, bounds, get_foldl_zipWith]
  exact ⟨foldl_least_le_of_mem hget, le_foldl_greatest_of_mem hget⟩

/-! ## Corners that bound a linear form -/

theorem corner_mem_corners (lo hi : Vec3 K) {bits : Vec3 K}
    (h : ∀ axis, bits.get axis ∈ [Scalar.ofInt 0, (Scalar.ofInt 1 : K)]) :
    corner lo hi bits ∈ corners lo hi := by
  refine List.mem_map_of_mem (List.mem_flatMap.mpr ⟨bits.x, h .x, ?_⟩)
  exact List.mem_flatMap.mpr ⟨bits.y, h .y, List.mem_map.mpr ⟨bits.z, h .z, rfl⟩⟩

theorem dot_eq (v w : Vec3 K) : v.dot w = v.x * w.x + v.y * w.y + v.z * w.z := by
  show Scalar.ofInt 0 + v.x * w.x + v.y * w.y + v.z * w.z = _
  rw [Exact.ofInt_eq, Int.cast_zero]
  ring

theorem get_apply (m : Matrix4 K) (p : Vec3 K) (axis : Axis) :
    (m.apply p).get axis = (m.linear.rows.get axis).dot p + m.offset.get axis := by
  cases axis <;> rfl

theorem get_toScalars (c : Coord) (axis : Axis) :
    (c.toScalars : Vec3 K).get axis = (c.get axis : K) := by
  cases axis <;> rfl

variable [IsStrictOrderedRing K]

/-- A multiple of a number is at least that of one of the ends of an interval around it. -/
theorem exists_endpoint_le (a : K) {lo y hi : K} (hlo : lo ≤ y) (hhi : y ≤ hi) :
    ∃ bit ∈ [Scalar.ofInt 0, (Scalar.ofInt 1 : K)], a * (lo + bit * (hi - lo)) ≤ a * y := by
  rcases le_total 0 a with ha | ha
  · refine ⟨Scalar.ofInt 0, List.mem_cons_self, ?_⟩
    rw [Exact.ofInt_eq, Int.cast_zero, zero_mul, add_zero]
    exact mul_le_mul_of_nonneg_left hlo ha
  · refine ⟨Scalar.ofInt 1, List.mem_cons_of_mem _ List.mem_cons_self, ?_⟩
    rw [Exact.ofInt_eq, Int.cast_one, one_mul, add_sub_cancel]
    exact mul_le_mul_of_nonpos_left hhi ha

/-- A linear form is at some corner of a box no greater than at a point of the box. -/
theorem exists_corner_dot_le (row : Vec3 K) {lo y hi : Vec3 K}
    (h : ∀ axis, lo.get axis ≤ y.get axis ∧ y.get axis ≤ hi.get axis) :
    ∃ c ∈ corners lo hi, row.dot c ≤ row.dot y := by
  obtain ⟨bx, hbx, hx⟩ := exists_endpoint_le row.x (h .x).1 (h .x).2
  obtain ⟨by', hby, hy⟩ := exists_endpoint_le row.y (h .y).1 (h .y).2
  obtain ⟨bz, hbz, hz⟩ := exists_endpoint_le row.z (h .z).1 (h .z).2
  refine ⟨corner lo hi ⟨bx, by', bz⟩, corner_mem_corners lo hi ?_, ?_⟩
  · exact Axis.forall_iff.mpr ⟨hbx, hby, hbz⟩
  · rw [dot_eq, dot_eq]
    exact add_le_add (add_le_add hx hy) hz

theorem exists_corner_le_dot (row : Vec3 K) {lo y hi : Vec3 K}
    (h : ∀ axis, lo.get axis ≤ y.get axis ∧ y.get axis ≤ hi.get axis) :
    ∃ c ∈ corners lo hi, row.dot y ≤ row.dot c := by
  obtain ⟨c, hc, hle⟩ := exists_corner_dot_le (-row) h
  have hneg : ∀ v : Vec3 K, (-row).dot v = -row.dot v := by
    intro v
    rw [dot_eq, dot_eq]
    show -row.x * v.x + -row.y * v.y + -row.z * v.z = _
    ring
  rw [hneg, hneg] at hle
  exact ⟨c, hc, neg_le_neg_iff.mp hle⟩

theorem boundImage_of_between (m : Matrix4 K) {lo y hi : Vec3 K}
    (h : ∀ axis, lo.get axis ≤ y.get axis ∧ y.get axis ≤ hi.get axis) (axis : Axis) :
    (boundImage lo hi m).1.get axis ≤ (m.apply y).get axis ∧
      (m.apply y).get axis ≤ (boundImage lo hi m).2.get axis := by
  constructor
  · obtain ⟨c, hc, hle⟩ := exists_corner_dot_le (m.linear.rows.get axis) h
    refine (boundImage_of_corner m hc axis).1.trans ?_
    rw [get_apply, get_apply]
    exact add_le_add_left hle _
  · obtain ⟨c, hc, hle⟩ := exists_corner_le_dot (m.linear.rows.get axis) h
    refine le_trans ?_ (boundImage_of_corner m hc axis).2
    rw [get_apply, get_apply]
    exact add_le_add_left hle _

/-! ## Voxels around an image -/

/-- The image of a position in a box of voxels lies within the rounded image of the box. -/
theorem imageBox_of_between (m : Matrix4 K) {b : Box} {p : Vec3 K}
    (hp : ∀ axis, (b.lo.get axis : K) ≤ p.get axis ∧ p.get axis ≤ b.hi.get axis) (axis : Axis) :
    ((imageBox m b).lo.get axis : K) ≤ (m.apply p).get axis ∧
      (m.apply p).get axis ≤ (imageBox m b).hi.get axis := by
  have hcorners : ∀ axis, (b.lo.toScalars : Vec3 K).get axis ≤ p.get axis ∧
      p.get axis ≤ (b.hi.toScalars : Vec3 K).get axis := by
    intro axis
    rw [get_toScalars, get_toScalars]
    exact hp axis
  have hbetween := boundImage_of_between m hcorners axis
  have hlo : (imageBox m b).lo.get axis =
      ⌊(boundImage (b.lo.toScalars : Vec3 K) b.hi.toScalars m).1.get axis⌋ :=
    Vec3.get_map _ _ _
  have hhi : (imageBox m b).hi.get axis =
      ⌈(boundImage (b.lo.toScalars : Vec3 K) b.hi.toScalars m).2.get axis⌉ :=
    Vec3.get_map _ _ _
  rw [hlo, hhi]
  exact ⟨(Int.floor_le _).trans hbetween.1, hbetween.2.trans (Int.le_ceil _)⟩

/-- So does the image of each of its voxels. -/
theorem imageBox_of_mem (m : Matrix4 K) {b : Box} {y : Coord} (hy : y ∈ b) (axis : Axis) :
    ((imageBox m b).lo.get axis : K) ≤ (m.apply y.toScalars).get axis ∧
      (m.apply y.toScalars).get axis ≤ (imageBox m b).hi.get axis := by
  refine imageBox_of_between m (fun axis => ?_) axis
  obtain ⟨hlo, hhi⟩ := Box.mem_iff_get.mp hy axis
  rw [get_toScalars]
  exact ⟨Int.cast_le.mpr hlo, Int.cast_le.mpr hhi⟩

end Exact

end Affine

end SparseVoxel

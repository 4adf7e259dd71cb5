import SparseVoxel.Proofs.Matrix.Four
import SparseVoxel.Placement

/-!
# Placements that can come about

A placement starts as the identity or as a matrix that is checked, and every operation that is not
refused leaves an affine matrix that can be inverted, so just these matrices can come about
(`Placement.reachable_iff`). The matrix between two such placements therefore exists, and it takes a
voxel of the one to the world and from there to the index space of the other
(`Placement.exists_between?`).
-/

namespace SparseVoxel.Placement

variable {K : Type} [Field K] [LinearOrder K] [FloorRing K]

/-- A placement whose matrix is affine and can be inverted. -/
structure Sound (t : Placement K) : Prop where
  isAffine : t.matrix.isAffine = true
  isRegular : t.matrix.isRegular = true

theorem sound_of_ofMatrix? {m : Matrix4 K} {t : Placement K} (h : ofMatrix? m = .ok t) :
    t.Sound := by
  obtain ⟨⟨haffine, hregular⟩, rfl⟩ := ofMatrix?_eq_ok_iff.mp h
  exact ⟨haffine, hregular⟩

theorem Sound.ofMatrix?_eq_ok {t : Placement K} (h : t.Sound) : ofMatrix? t.matrix = .ok t :=
  ofMatrix?_eq_ok_iff.mpr ⟨⟨h.isAffine, h.isRegular⟩, rfl⟩

theorem Sound.compose? {t t' : Placement K} (ht : t.Sound) {side : Side} {op : Matrix4 K}
    (hop : op.isAffine = true) (h : t.compose? side op = .ok t') : t'.Sound := by
  obtain ⟨hregular, rfl⟩ := compose?_eq_ok_iff.mp h
  refine ⟨?_, hregular⟩
  cases side with
  | index => exact Matrix4.isAffine_mul ht.isAffine hop
  | world => exact Matrix4.isAffine_mul hop ht.isAffine

/-- The placements that can come about: the identity, those that are made of a matrix, and what
operations that are not refused make of them. -/
inductive Reachable [Trigonometry K] : Placement K → Prop
  | identity : Reachable identity
  | ofMatrix {m : Matrix4 K} {t : Placement K} : ofMatrix? m = .ok t → Reachable t
  | scale {t t' : Placement K} {side : Side} {v : Vec3 K} :
    Reachable t → t.scale? side v = .ok t' → Reachable t'
  | shift {t t' : Placement K} {side : Side} {v : Vec3 K} :
    Reachable t → t.shift? side v = .ok t' → Reachable t'
  | rotate {t t' : Placement K} {side : Side} {axis : String} {angle : K} :
    Reachable t → t.rotate? side axis angle = .ok t' → Reachable t'
  | composeWorld {t t' : Placement K} {m : Matrix4 K} :
    Reachable t → t.composeWorld? m = .ok t' → Reachable t'

/-- The matrix between two index spaces goes through the world. -/
theorem exists_between? {source target : Placement K} (hsource : source.Sound)
    (htarget : target.Sound) : ∃ relative, source.between? target = .ok relative ∧
      relative.isAffine = true ∧
      ∀ p, source.toIndex? (target.toWorld p) = some (relative.apply p) := by
  have hinverse : source.matrix.invert? = some _ := if_pos hsource.isRegular
  have haffine := Matrix4.isAffine_of_invert? hinverse
  refine ⟨_, ?_, Matrix4.isAffine_mul haffine htarget.isAffine, fun p => ?_⟩
  · rw [between?, inverse?, hinverse]
  · rw [toIndex?, inverse?, hinverse, Option.map_some,
      Matrix4.apply_mul haffine htarget.isAffine]
    rfl

variable [IsStrictOrderedRing K]

theorem sound_identity : (identity : Placement K).Sound := by
  refine ⟨Matrix4.isAffine_affine _ _, Matrix4.isRegular_iff.mpr ?_⟩
  have hdet : (Matrix4.one : Matrix4 K).linear.det = 1 := by
    rw [Matrix3.det_eq]
    show (Matrix3.one : Matrix3 K).toMatrix.det = 1
    rw [Matrix3.toMatrix_one, Matrix.det_one]
  show Matrix4.singularBound ≤ |(Matrix4.one : Matrix4 K).linear.det|
  rw [hdet, abs_one, Matrix4.singularBound, Exact.tenth_eq]
  norm_num

theorem Reachable.sound [Trigonometry K] {t : Placement K} (h : t.Reachable) : t.Sound := by
  induction h with
  | identity => exact sound_identity
  | ofMatrix h => exact sound_of_ofMatrix? h
  | scale _ h ih => exact ih.compose? (Matrix4.isAffine_affine _ _) h
  | shift _ h ih => exact ih.compose? (Matrix4.isAffine_affine _ _) h
  | rotate _ h ih =>
    obtain ⟨r, -, h⟩ := bind_eq_ok.mp h
    exact ih.compose? (Matrix4.isAffine_affine _ _) h
  | composeWorld _ h ih =>
    obtain ⟨hop, h⟩ := composeWorld?_eq_ok_iff.mp h
    exact ih.compose? hop h

theorem reachable_iff [Trigonometry K] {t : Placement K} : t.Reachable ↔ t.Sound := by
  constructor
  · exact Reachable.sound
  · exact fun h => .ofMatrix h.ofMatrix?_eq_ok

end SparseVoxel.Placement

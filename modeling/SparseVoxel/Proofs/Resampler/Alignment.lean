import SparseVoxel.Proofs.Resampler.Pass
import SparseVoxel.Proofs.Affine.Parts
import SparseVoxel.Proofs.Placement
import SparseVoxel.Proofs.Resampler.Split
import SparseVoxel.Proofs.Scalar.QuarterTurns
import SparseVoxel.Resampler.Alignment

/-!
# Alignment in the world

Aligning applies the map between two index spaces in one of two ways: by its parts, with an inverse
that is built from them, or as it is, with a numeric inverse and without copying tiles. In exact
arithmetic both apply the same map and sample at the same positions, provided that a split rebuilds
the map exactly (`exists_ofAlignment?`), and these positions are where the voxels of the destination
lie in the world. `PlacedGrid.align_reads` is what is left of the destination.
-/

namespace SparseVoxel

namespace Resampler

section Passes

variable {K : Type} [Field K] [LinearOrder K] [FloorRing K] [Trigonometry K]

variable {V : Type} {k m : Nat} [BEq V] [VoxelValue K V] [Sized V]

/-- Aligning clears the destination and then passes over it. -/
theorem alignBy_eq_ok {o : Options K} {request : Sampler.Request} {sampler : Sampler}
    (hsampler : request.resolve? = .ok sampler) {source : Grid V k} {dest : Grid V m}
    {sourcePlacement destPlacement : Placement K} {relative forward : Matrix4 K}
    (hrelative : sourcePlacement.between? destPlacement = .ok relative)
    (hforward : relative.invert? = some forward) {r : Resampler K}
    (hr : ofAlignment? o forward = .ok r) :
    alignBy o .ideal request (.same V) (fun _ => source) sourcePlacement destPlacement dest =
      r.transform .ideal sampler (.same V) (fun _ => source) dest.clear := by
  have hclear : (modify Grid.clear : Grid.Attempt V m Unit) dest = .ok () dest.clear := rfl
  unfold alignBy align
  refine (Grid.Attempt.check_bind _ _ dest).trans ?_
  rw [hsampler]
  refine (Grid.Attempt.check_bind _ _ dest).trans ?_
  rw [hrelative]
  refine (Grid.Attempt.bind_of_eq_ok hclear).trans ?_
  rw [hforward]
  refine (Grid.Attempt.check_bind _ _ dest.clear).trans ?_
  rw [hr]

end Passes

variable {K : Type} [Field K] [LinearOrder K] [IsStrictOrderedRing K] [FloorRing K]
variable [Trigonometry K]

/-! ## The resampler of an alignment -/

/-- No axis of a split is scaled to nothing, if the matrix is not singular. -/
theorem scale_ne_zero {d : AffineParts K} (hdet : d.toMatrix.linear.det ≠ 0) (axis : Axis) :
    d.scale.get axis ≠ 0 := by
  have hproduct : d.toMatrix.linear.det =
      (Euler.toMatrix .zyx d.rotation).toMatrix.det * (d.scale.x * d.scale.y * d.scale.z) := by
    rw [Matrix3.det_eq, AffineParts.toMatrix, Affine.pivoted_none]
    exact Matrix3.det_scaleColumns _ _
  rw [hproduct, mul_ne_zero_iff, mul_ne_zero_iff, mul_ne_zero_iff] at hdet
  cases axis
  · exact hdet.2.1.1
  · exact hdet.2.1.2
  · exact hdet.2.2

/-- Both ways of applying a map between two index spaces have the map and undo it. -/
theorem exists_ofAlignment? (hpythagoras : Pythagorean K) (o : Options K) {t : K}
    (ht : o.splitTolerance = .ok t) {forward : Matrix4 K} (haffine : forward.isAffine = true)
    (hregular : forward.isRegular = true)
    (hexact : ∀ d, AffineParts.ofMatrix? forward t = some d → d.toMatrix = forward) :
    ∃ r inv, ofAlignment? o forward = .ok r ∧ r.forward = forward ∧ r.margin = o.margin ∧
      r.inverse = some inv ∧ ∀ p, inv.apply (forward.apply p) = p := by
  cases hd : AffineParts.ofMatrix? forward t with
  | none =>
    have hinverse : forward.invert? = some _ := if_pos hregular
    refine ⟨_, _, bind_eq_ok.mpr ⟨_, ofSplit?_eq_none ht hd, if_pos haffine⟩, rfl, rfl, hinverse,
      ?_⟩
    exact Matrix4.apply_of_invert?_apply hinverse
  | some d =>
    have hmatrix := hexact d hd
    have hforward : (ofParts o d).forward = forward :=
      (AffineParts.matrixWith_toPivotMap d).trans hmatrix
    have hscale : ∀ axis, d.scale.get axis ≠ 0 := by
      refine scale_ne_zero ?_
      rw [hmatrix]
      exact Matrix4.det_ne_zero_of_isRegular hregular
    have hcollapses : ¬ d.toPivotMap.collapses = true := by
      rw [PivotMap.collapses_iff]
      rintro ⟨axis, hzero⟩
      exact hscale axis hzero
    have hm : (forward.isAffine && forward.isFinite) = true := by
      rw [haffine, (AffineParts.split_of_ofMatrix? hd).isFinite]
      rfl
    have hsplit := ofSplit?_eq_ok ht hm hd (fun _ => rfl) (by
      show (ofParts o d).forward.isAffine = true
      rw [hforward, haffine])
    refine ⟨ofParts o d, _, bind_eq_ok.mpr ⟨_, hsplit, rfl⟩, hforward, rfl,
      if_neg hcollapses, fun p => ?_⟩
    have hback := PivotMap.inverseWith_apply_matrixWith (m := d.toPivotMap)
      (Euler.orthonormal_toMatrix hpythagoras .zyx d.rotation) hscale p
    rwa [AffineParts.matrixWith_toPivotMap, hmatrix] at hback

end Resampler

/-! ## What is left of the destination -/

variable {K : Type} [Field K] [LinearOrder K] [IsStrictOrderedRing K] [FloorRing K]
variable [Trigonometry K]

/-- Placements between which both ways of applying the map come to the same: they can come about,
neither the matrix between them nor its inverse counts as singular, and a split rebuilds the
inverse exactly, as it does without a tolerance. -/
structure Placement.ExactBetween (o : Resampler.Options K) (source target : Placement K) :
    Prop where
  source_reachable : source.Reachable
  target_reachable : target.Reachable
  regular : ∀ relative, source.between? target = .ok relative →
    Matrix4.singularBound ≤ |relative.linear.det| ∧
      Matrix4.singularBound ≤ |relative.linear.inverse.det|
  split_exact : ∃ t, o.splitTolerance = .ok t ∧ (t = 0 ∨ ∀ relative forward d,
    source.between? target = .ok relative → relative.invert? = some forward →
      AffineParts.ofMatrix? forward t = some d → d.toMatrix = forward)

variable {V : Type} {k m : Nat} [BEq V] [LawfulBEq V] [VoxelValue K V] [ExactValue K V] [Sized V]

/-- **Aligning is correct in the world.** -/
theorem PlacedGrid.align_reads (hpythagoras : Pythagorean K) (o : Resampler.Options K)
    {margin : Int} (hmargin : o.margin = .ok (.int margin)) (request : Sampler.Request)
    (source : PlacedGrid K V k) (dest : PlacedGrid K V m)
    (hbackground : dest.grid.background = source.grid.background) :
    (∀ e, request.resolve? = .error e →
      source.align o .ideal request (.same V) dest = (.error e, dest)) ∧
    ∀ sampler, request.resolve? = .ok sampler → sampler ≠ .quadratic →
      source.placement.ExactBetween o dest.placement →
      ∃ relative forward stats after, source.placement.between? dest.placement = .ok relative ∧
        relative.invert? = some forward ∧
        source.align o .ideal request (.same V) dest = (.ok stats, ⟨after, dest.placement⟩) ∧
        stats.reach = source.grid.activeBox?.map (fun active =>
          (Affine.imageBox forward active).expand (max (sampler.radius : Int) margin)) ∧
        ∀ y, ∃ p v, source.placement.toIndex? (dest.placement.toWorld y.toScalars) = some p ∧
          sampler.readGrid? source.grid p = .ok v ∧
          after.read y =
            if stats.Reached y ∧ (v.active || v.value != dest.grid.background) then v
            else dest.grid.unset := by
  refine ⟨fun e he => ?_, fun sampler hsampler hlinear hplacements => ?_⟩
  · have hrefused : Resampler.alignBy o .ideal request (.same V) (fun _ => source.grid)
        source.placement dest.placement dest.grid = .error e dest.grid := by
      refine (Grid.Attempt.check_bind _ _ dest.grid).trans ?_
      rw [he]
    exact PlacedGrid.attempt_of_error hrefused
  · obtain ⟨hsource, htarget, hregular, t, ht, hexact⟩ := hplacements
    obtain ⟨relative, hrelative, haffine, hworld⟩ :=
      Placement.exists_between? hsource.sound htarget.sound
    obtain ⟨hdet, hdet'⟩ := hregular relative hrelative
    have hforward : relative.invert? = some _ := if_pos (Matrix4.isRegular_iff.mpr hdet)
    obtain ⟨r, inv, hr, hmap, hmargin', hinverse, hback⟩ :=
      Resampler.exists_ofAlignment? hpythagoras o ht (Matrix4.isAffine_of_invert? hforward)
        (Matrix4.isRegular_iff.mpr hdet') fun d hd => by
          rcases hexact with rfl | hexact
          · exact AffineParts.toMatrix_of_exact hd
          · exact hexact relative _ d hrelative hforward hd
    obtain ⟨stats, after, hpass, hreach, hread⟩ := Resampler.exists_transform hinverse
      (hmargin'.trans hmargin) sampler source.grid dest.grid.clear hbackground
    have halign := (Resampler.alignBy_eq_ok hsampler hrelative hforward hr).trans hpass
    rw [hmap] at hreach
    refine ⟨relative, _, stats, after, hrelative, hforward, PlacedGrid.attempt_of_ok halign, hreach,
      fun y => ?_⟩
    -- Whichever inverse the resampler has, it undoes what undoes the relative map.
    have hposition : inv.apply y.toScalars = relative.apply y.toScalars := by
      have hsame := hback (relative.apply y.toScalars)
      rwa [Matrix4.apply_of_invert?_apply hforward] at hsame
    refine ⟨_, _, hworld y.toScalars, Sampler.readGrid?_eq_ok sampler source.grid _, ?_⟩
    by_cases hy : stats.Reached y
    · have hwritten := ((hread y).2 hy).resolve_right fun h => hlinear h.1
      rw [hwritten, Traversal.written, Traversal.sampleOf, hposition, hbackground,
        Grid.read_clear]
      simp only [hy, true_and]
      rfl
    · rw [(hread y).1 hy, Grid.read_clear, if_neg fun h => hy h.1]

section QuarterTurn

open QuarterTurns

/-- Lattices of different edge lengths, a quarter turn apart. -/
theorem PlacedGrid.align_reads_of_quarterTurn :
    let o : Resampler.Options ℚ := ⟨true, true, .ok (.int 1), .ok 0⟩
    let source : PlacedGrid ℚ Int32 3 :=
      ⟨(Grid.empty 0).write ⟨1, -2, 3⟩ ⟨7, true⟩, ⟨.affine (.diagonal ⟨2, 2, 2⟩) ⟨1, 0, -3⟩⟩⟩
    let dest : PlacedGrid ℚ Int32 2 :=
      ⟨(Grid.empty 0).write ⟨5, 0, -6⟩ ⟨-1, true⟩, ⟨.ofLinear (Axis.z.rotation 1)⟩⟩
    (Sampler.Request.named "box").resolve? = .ok .box ∧
      source.placement.ExactBetween o dest.placement ∧
      ∃ relative forward stats after, source.placement.between? dest.placement = .ok relative ∧
        relative.invert? = some forward ∧
        source.align o .ideal (.named "box") (.same Int32) dest =
          (.ok stats, ⟨after, dest.placement⟩) ∧
        stats.reach = source.grid.activeBox?.map (fun active =>
          (Affine.imageBox forward active).expand (max (Sampler.box.radius : Int) 1)) ∧
        ∀ y, ∃ p v, source.placement.toIndex? (dest.placement.toWorld y.toScalars) = some p ∧
          Sampler.box.readGrid? source.grid p = .ok v ∧
          after.read y =
            if stats.Reached y ∧ (v.active || v.value != dest.grid.background) then v
            else dest.grid.unset := by
  intro o source dest
  have hsampler : (Sampler.Request.named "box").resolve? = .ok .box := rfl
  have hsource : source.placement.Reachable :=
    Placement.reachable_iff.mpr ⟨by decide +kernel, by decide +kernel⟩
  have hdest : dest.placement.Reachable :=
    Placement.reachable_iff.mpr ⟨by decide +kernel, by decide +kernel⟩
  have hregular : (match source.placement.between? dest.placement with
      | .ok relative => decide (Matrix4.singularBound ≤ |relative.linear.det| ∧
          Matrix4.singularBound ≤ |relative.linear.inverse.det|)
      | .error _ => false) = true := by
    decide +kernel
  have hbetween : source.placement.ExactBetween o dest.placement := by
    refine ⟨hsource, hdest, fun relative h => ?_, 0, rfl, Or.inl rfl⟩
    rw [h] at hregular
    exact of_decide_eq_true hregular
  have hbackground : dest.grid.background = source.grid.background := by decide
  exact ⟨hsampler, hbetween, (PlacedGrid.align_reads pythagorean o rfl (.named "box") source dest
    hbackground).2 .box hsampler nofun hbetween⟩

end QuarterTurn

end SparseVoxel

import SparseVoxel.Proofs.Affine.Parts
import SparseVoxel.Resampler.Basic

/-!
# Resamplers of matrices that can be split

Where the angles of a split are finite, the resampler of the split has the matrix of the parts for
its map and the inverse that is built from the parts, over every type of scalars
(`ofSplit?_eq_ok`).
-/

namespace SparseVoxel

variable {K : Type} [Scalar K] [Trigonometry K]

namespace Resampler

/-- The resampler of the parts of a matrix. -/
def ofParts (o : Options K) (d : AffineParts K) : Resampler K where
  forward := d.toPivotMap.matrixWith (Euler.toMatrix .zyx d.rotation)
  inverse :=
    if d.toPivotMap.collapses then none
    else some (d.toPivotMap.inverseWith (Euler.toMatrix .zyx d.rotation))
  copyTiles := o.copyTiles
  parallel := o.parallel
  margin := o.margin
  map := some d.toPivotMap

/-- A matrix that can be split has the resampler of its parts. -/
theorem ofSplit?_eq_ok {o : Options K} {m : Matrix4 K} {t : K} {d : AffineParts K}
    (ht : o.splitTolerance = .ok t) (hm : (m.isAffine && m.isFinite) = true)
    (hd : AffineParts.ofMatrix? m t = some d)
    (hangles : ∀ axis, Scalar.isFinite (d.rotation.get axis) = true)
    (haffine : (d.toPivotMap.matrixWith (Euler.toMatrix .zyx d.rotation)).isAffine = true) :
    ofSplit? o m = .ok (some (ofParts o d)) := by
  have hrotation := AffineParts.rotationMatrix?_toPivotMap hangles
  have hinverse : d.toPivotMap.inverseMatrix? = .ok (ofParts o d).inverse := by
    unfold PivotMap.inverseMatrix? ofParts
    simp only [hrotation]
    split
    · rfl
    · rfl
  have hmap : ofMap? o d.toPivotMap = .ok (ofParts o d) := by
    refine bind_eq_ok.mpr ⟨_, AffineParts.toMatrix?_toPivotMap hangles, ?_⟩
    refine bind_eq_ok.mpr ⟨_, if_pos haffine, ?_⟩
    exact bind_eq_ok.mpr ⟨_, hinverse, rfl⟩
  unfold ofSplit?
  rw [if_pos hm]
  refine bind_eq_ok.mpr ⟨t, ht, ?_⟩
  simp only [hd]
  exact bind_eq_ok.mpr ⟨_, hmap, rfl⟩

/-- A matrix that cannot be split has no such resampler. -/
theorem ofSplit?_eq_none {o : Options K} {m : Matrix4 K} {t : K} (ht : o.splitTolerance = .ok t)
    (hd : AffineParts.ofMatrix? m t = none) : ofSplit? o m = .ok none := by
  unfold ofSplit?
  split
  · refine bind_eq_ok.mpr ⟨t, ht, ?_⟩
    simp only [hd]
    rfl
  · rfl

end Resampler

end SparseVoxel

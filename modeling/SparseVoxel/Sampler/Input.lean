import SparseVoxel.Sampler.Basic
import SparseVoxel.Value.Kind

/-!
# Windows from arrays

A window may be given by the flat arrays of its values and flags, the z axis running fastest, and
be sampled at many positions relative to it.
-/

namespace SparseVoxel

namespace Window

/-- The window of flat arrays with the given edge lengths; values of three components have a
fourth edge of that length. At most one length of each array may be left open, by a negative
number. -/
def ofArrays? (t : ValueKind) (shape : List Int) (values : Nested Number) (active : Nested Bool) :
    Except Fault (Window t.Value) := do
  let size := (← values.requireTensor).entries.length
  let vs ← t.castMany? values (size / t.channels)
  let edges ← Tensor.shapeFor? shape size
  let on ← active.requireTensor
  let flagEdges ← Tensor.shapeFor? (shape.take 3) on.entries.length
  match flagEdges with
  | [x, y, z] =>
    if edges ≠ (if t.isVector then [x, y, z, 3] else [x, y, z]) then .error .shapeMismatch
    else return {
      box := ⟨⟨0, 0, 0⟩, ⟨x - 1, y - 1, z - 1⟩⟩
      cells := (vs.zipWith Voxel.mk on.entries).toArray }
  | _ => .error .tooFewElements

end Window

namespace Sampler

/-- Positions listed in threes. -/
def positions? (raw : Nested Float) : Except Fault (List (Vec3 Float)) :=
  raw.triples? .ok

/-- The samples of a window at positions relative to it. -/
def sampleAll? {V : Type} [VoxelValue Float V] (s : Sampler) (w : Window V)
    (positions : List (Vec3 Float)) : Except Fault (List (Voxel V)) :=
  positions.mapM (s.readWindow? w)

end Sampler

end SparseVoxel

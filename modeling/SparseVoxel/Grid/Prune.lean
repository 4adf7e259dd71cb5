import SparseVoxel.Grid.Basic
import SparseVoxel.Value.Basic

/-!
# Pruning

A leaf whose voxels agree in activity, and whose values are within a tolerance of its first value,
collapses to a tile of that first state, or to nothing where the tile would say what absence says.
-/

namespace SparseVoxel.Grid

variable {K V : Type} {k : Nat} [Scalar K] [BEq V] [VoxelValue K V]

/-- Whether a value counts as equal to a reference value under a tolerance. -/
def withinTolerance (tolerance : K) (value reference : V) : Bool :=
  if Scalar.ofInt 0 < tolerance then VoxelValue.within tolerance value reference
  else value == reference

/-- The state that the cells of a leaf collapse to. -/
def collapsed? (tolerance : K) (cells : List (Voxel V)) : Option (Voxel V) :=
  match cells with
  | [] => none
  | first :: _ =>
    if cells.all fun v =>
        v.active == first.active && withinTolerance tolerance v.value first.value then
      some first
    else none

/-- The state that a block collapses to; a tile is left as it is. -/
def blockCollapse? (tolerance : K) : Block V k → Option (Voxel V)
  | .tile _ => none
  | .leaf cells => collapsed? tolerance cells.toList

/-- The keys of the leaves that collapse, with the states they collapse to. -/
def collapsible (tolerance : K) (g : Grid V k) : List (Coord × Voxel V) :=
  g.blocks.toList.filterMap fun (key, b) => (blockCollapse? tolerance b).map (key, ·)

/-- Collapses every leaf that can be, and says how many there were. -/
def prune (tolerance : K) (g : Grid V k) : Grid V k × Nat :=
  let found := collapsible tolerance g
  (found.foldl (fun g (key, state) => g.putTile key state) g, found.length)

end SparseVoxel.Grid

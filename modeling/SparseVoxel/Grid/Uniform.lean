import SparseVoxel.Grid.Window

/-!
# Uniform boxes

A box is uniform when all of its voxels have one state. `Grid.uniform?` finds that state from the
blocks that are stored, and may be told that a leaf is never uniform. An empty box has no voxel
whose state could be shared, so `Grid.examine?` refuses it.
-/

namespace SparseVoxel.Grid

variable {V : Type} {k : Nat} [BEq V]

/-- The state shared by all voxels of a part of a block, if there is one. A leaf has none when
only tiles count. -/
def sharedState? (g : Grid V k) (part : Box) (tilesOnly : Bool) (key : Coord) : Option (Voxel V) :=
  match g.blockAt key with
  | .tile state => some state
  | .leaf cells =>
    if tilesOnly then none
    else
      match part.coords.map (Block.leaf cells).read with
      | [] => none
      | first :: rest => if (first :: rest).all (· == first) then some first else none

/-- The state shared by all voxels of a box that is not empty. Where some block is absent the
shared state is that of the absent block. -/
def uniform? (g : Grid V k) (box : Box) (tilesOnly : Bool) : Option (Voxel V) :=
  let keys := g.storedKeys box
  let covered := keys.foldr (fun key n => (box.inBlock k key).volume + n) 0
  match keys.mapM fun key => g.sharedState? (box.inBlock k key) tilesOnly key with
  | none => none
  | some [] => some g.unset
  | some (first :: rest) =>
    if rest.all (first == ·) then
      if covered < box.volume then (if first == g.unset then some g.unset else none)
      else some first
    else none

/-- What becomes of probing an empty box: a stored block met on the way has no voxel to show,
unless it is a leaf and only tiles count. -/
def examineEmpty (g : Grid V k) (box : Box) (tilesOnly : Bool) : Except Fault (Option (Voxel V)) :=
  match g.storedKeys box with
  | [] => .error .nothingToProbe
  | key :: _ => if tilesOnly && (g.blockAt key).isLeaf then .ok none else .error .noOverlap

/-- The state shared by all voxels of a box, if there is one. -/
def examine? (g : Grid V k) (box : Box) (tilesOnly : Bool) : Except Fault (Option (Voxel V)) :=
  if box.isEmpty then g.examineEmpty box tilesOnly else .ok (g.uniform? box tilesOnly)

end SparseVoxel.Grid

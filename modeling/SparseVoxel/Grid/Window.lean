import SparseVoxel.Grid.Basic
import SparseVoxel.Machine

/-!
# Windows

The stored blocks that meet a box are found in one of two ways: by walking the blocks of the box
when there are few of them, or by scanning the store. `Grid.window` copies a box of voxels into a
dense array, block by block.
-/

namespace SparseVoxel

namespace Box

/-- The position of a voxel among the voxels of the box, the z axis running fastest. -/
def position (b : Box) (c : Coord) : Nat :=
  let d := b.dim
  let o := c - b.lo
  (o.x.toNat * d.y + o.y.toNat) * d.z + o.z.toNat

end Box

/-- A dense copy of a box of voxels. -/
structure Window (V : Type) where
  box : Box
  cells : Array (Voxel V)

namespace Grid

variable {V : Type} {k : Nat}

/-- Walks the blocks of a box in lexicographic order and keeps the stored ones. -/
def walkedKeys (g : Grid V k) (box : Box) : List Coord :=
  (box.blocks k).filter g.blocks.contains

/-- Scans the store, leaves before tiles, and keeps the blocks of a box. -/
def scannedKeys (g : Grid V k) (box : Box) : List Coord :=
  let range := box.blockRange k
  let inRange := g.blocks.toList.filter fun (key, _) => decide (key ∈ range)
  let (leaves, tiles) := inRange.partition fun (_, b) => b.isLeaf
  (leaves ++ tiles).map Prod.fst

/-- The keys of the stored blocks that meet a box, found by the cheaper way. -/
def storedKeys (g : Grid V k) (box : Box) : List Coord :=
  if box.blockCount k ≤ g.blocks.size then g.walkedKeys box else g.scannedKeys box

/-- Copies the part of a block that lies in the box of a window. -/
def paste (g : Grid V k) (w : Window V) (key : Coord) : Window V :=
  let b := g.blockAt key
  let box := w.box
  let cells := w.cells
  ⟨box, (box.inBlock k key).coords.foldl
    (fun cells c => cells.setIfInBounds (box.position c) (b.read c)) cells⟩

/-- A dense copy of a box. -/
def window (g : Grid V k) (box : Box) : Window V :=
  let blank : Window V := ⟨box, .replicate box.volume g.unset⟩
  if box.isEmpty then blank else (g.storedKeys box).foldl g.paste blank

/-- A dense copy of a box, if a machine has room for it. -/
def window? [Sized V] (machine : Machine) (g : Grid V k) (box : Box) : Except Fault (Window V) := do
  machine.reserve? box.dim (Sized.bytes V)
  return g.window box

end Grid

end SparseVoxel

import SparseVoxel.Grid.Block

/-!
# Sparse grids

A `Grid` gives every voxel of the infinite lattice a state, but stores only blocks: a voxel whose
block is absent is inactive and has the background value. `Grid.read` is that view, and every
writing operation alters blocks one at a time.

Single writes turn the block of their voxel into a leaf. Filling a box stores a tile for each
block that lies inside the box, or nothing where the tile would only say what absence says.
-/

namespace SparseVoxel

/-- A sparse grid of blocks of edge `2 ^ k`. -/
structure Grid (V : Type) (k : Nat) where
  background : V
  blocks : Std.TreeMap Coord (Block V k)

namespace Grid

variable {V : Type} {k : Nat}

/-- The grid that stores nothing. -/
def empty (background : V) : Grid V k :=
  ⟨background, ∅⟩

/-- The state of a voxel whose block is absent. -/
def unset (g : Grid V k) : Voxel V :=
  ⟨g.background, false⟩

/-- The block stored under a key. -/
def block? (g : Grid V k) (key : Coord) : Option (Block V k) :=
  g.blocks[key]?

/-- The block under a key, a tile of the background where none is stored. -/
def blockAt (g : Grid V k) (key : Coord) : Block V k :=
  (g.block? key).getD (.tile g.unset)

/-- The state of a voxel. -/
def read (g : Grid V k) (c : Coord) : Voxel V :=
  (g.blockAt (Box.blockKey k c)).read c

/-- The number of stored leaves. -/
def leafCount (g : Grid V k) : Nat :=
  g.blocks.toList.countP fun (_, b) => b.isLeaf

/-- The number of stored tiles. -/
def tileCount (g : Grid V k) : Nat :=
  g.blocks.toList.countP fun (_, b) => !b.isLeaf

/-! ## Writing -/

/-- Replaces the block under a key by what becomes of it. -/
def alterBlock (g : Grid V k) (key : Coord) (f : Block V k → Block V k) :
    Grid V k :=
  let absent := g.unset
  { g with blocks := g.blocks.alter key fun b => some (f (b.getD (.tile absent))) }

/-- Turns the block under a key into a leaf that reads the same. -/
def densify (g : Grid V k) (key : Coord) : Grid V k :=
  g.alterBlock key fun b => .leaf b.cells

/-- Sets the state of a voxel. -/
def write (g : Grid V k) (c : Coord) (state : Voxel V) : Grid V k :=
  g.alterBlock (Box.blockKey k c) fun b => b.write c state

/-- Switches a voxel on or off, keeping its value. -/
def setActive (g : Grid V k) (c : Coord) (on : Bool) : Grid V k :=
  g.alterBlock (Box.blockKey k c) fun b => b.write c { b.read c with active := on }

/-- Collects writes by the block of their voxel, keeping their order within a block. -/
def groupWrites (k : Nat) (writes : List (Coord × Voxel V)) :
    Std.TreeMap Coord (List (Coord × Voxel V)) :=
  writes.foldr (fun w groups =>
    groups.alter (Box.blockKey k w.1) fun ws => some (w :: ws.getD [])) ∅

/-- Sets the states of many voxels block by block. Where a voxel occurs repeatedly the last
state counts. -/
def writeAll (g : Grid V k) (writes : List (Coord × Voxel V)) : Grid V k :=
  (groupWrites k writes).foldl (fun g key ws => g.alterBlock key (·.writeAll ws)) g

/-- Resets every voxel. -/
def clear (g : Grid V k) : Grid V k :=
  { g with blocks := ∅ }

variable [BEq V]

/-- Whether a state is that of a voxel whose block is absent. -/
def isUnset (g : Grid V k) (state : Voxel V) : Bool :=
  state == g.unset

/-- Stores a tile, or nothing if the tile would read as the absent block does. -/
def putTile (g : Grid V k) (key : Coord) (state : Voxel V) : Grid V k :=
  if g.isUnset state then { g with blocks := g.blocks.erase key }
  else { g with blocks := g.blocks.insert key (.tile state) }

/-- Fills the part of a block that lies in a box. -/
def fillBlock (box : Box) (state : Voxel V) (g : Grid V k) (key : Coord) : Grid V k :=
  let block := Box.ofBlock k key
  if box.containsBox block then g.putTile key state
  else g.alterBlock key (·.writeAll ((box.meet block).coords.map (·, state)))

/-- Sets every voxel of a box to one state. -/
def fill (g : Grid V k) (box : Box) (state : Voxel V) : Grid V k :=
  if box.isEmpty then g
  else (box.blocks k).foldl (fillBlock box state) g

end Grid

end SparseVoxel

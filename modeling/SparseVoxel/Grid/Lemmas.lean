import SparseVoxel.Grid.Basic

/-!
# What writing does to the view of a grid

Each lemma says what `Grid.read` answers after one operation. All of them rest on
`block?_alterBlock`: an operation alters one block, and the others stay as they are.
-/

namespace SparseVoxel.Grid

variable {V : Type} {k : Nat}

/-- Altering a block stores what it becomes under its key, and changes nothing else. -/
theorem block?_alterBlock (g : Grid V k) (key other : Coord) (f : Block V k → Block V k) :
    (g.alterBlock key f).block? other =
      if other = key then some (f (g.blockAt key)) else g.block? other := by
  simp only [blockAt, block?, alterBlock, unset, Std.TreeMap.getElem?_alter]
  by_cases h : other = key
  · subst h
    simp
  · rw [if_neg (Coord.compare_ne h), if_neg h]

theorem blockAt_alterBlock (g : Grid V k) (key other : Coord) (f : Block V k → Block V k) :
    (g.alterBlock key f).blockAt other =
      if other = key then f (g.blockAt key) else g.blockAt other := by
  rw [blockAt, block?_alterBlock]
  split
  · rfl
  · rfl

/-- Writing a voxel changes that voxel and no other. -/
theorem read_write (g : Grid V k) (c d : Coord) (state : Voxel V) :
    (g.write c state).read d = if d = c then state else g.read d := by
  simp only [write, read, blockAt_alterBlock]
  by_cases h : Box.blockKey k d = Box.blockKey k c
  · rw [if_pos h, Block.read_write h, h]
  · have hne : d ≠ c := fun he => h (congrArg _ he)
    rw [if_neg h, if_neg hne]

/-- Switching a voxel keeps its value and every other voxel. -/
theorem read_setActive (g : Grid V k) (c d : Coord) (on : Bool) :
    (g.setActive c on).read d = if d = c then { g.read c with active := on } else g.read d := by
  simp only [setActive, read, blockAt_alterBlock]
  by_cases h : Box.blockKey k d = Box.blockKey k c
  · rw [if_pos h, Block.read_write h, h]
  · have hne : d ≠ c := fun he => h (congrArg _ he)
    rw [if_neg h, if_neg hne]

/-- Turning a block into a leaf changes no voxel. -/
theorem read_densify (g : Grid V k) (key d : Coord) : (g.densify key).read d = g.read d := by
  simp only [densify, read, blockAt_alterBlock]
  split
  · next h => rw [h, Block.read_leaf_cells]
  · rfl

/-- After a reset every voxel reads as unset. -/
theorem read_clear (g : Grid V k) (c : Coord) : g.clear.read c = g.unset := by
  simp [read, clear, blockAt, block?, Block.read, unset]

end SparseVoxel.Grid

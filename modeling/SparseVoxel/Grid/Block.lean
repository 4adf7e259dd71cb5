import SparseVoxel.Box.Blocks
import SparseVoxel.Voxel

/-!
# Blocks of voxels

A block is a cube of edge `2 ^ k`. It is stored either as a tile, one state for all of its voxels,
or as a leaf, one state per voxel with the z axis running fastest. `Block.read` gives the state of
a voxel in either form, and `Block.cells` turns either form into the states of a leaf.
`eq_of_cellIndex` says that no two voxels of a block share a cell, so writing one voxel leaves the
others as they are (`Block.read_write`).
-/

namespace SparseVoxel

/-- The number of voxels in a block. -/
abbrev blockSize (k : Nat) : Nat :=
  Box.edge k * Box.edge k * Box.edge k

/-- A block in one of its two stored forms. -/
inductive Block (V : Type) (k : Nat) where
  | tile (state : Voxel V)
  | leaf (cells : Vector (Voxel V) (blockSize k))

/-- The offset of a coordinate within its block, on one axis. -/
def blockOffset (k : Nat) (c : Int) : Nat :=
  (c % Box.edge k).toNat

theorem blockOffset_lt (k : Nat) (c : Int) : blockOffset k c < Box.edge k := by
  have hpos := Box.natCast_edge_pos k
  have hlt := Int.emod_lt_of_pos c hpos
  have hnn := Int.emod_nonneg c (Int.ne_of_gt hpos)
  rw [blockOffset]
  omega

/-- The position of a digit triple, the last digit running fastest, is below the cube. -/
theorem position_lt {s a b c : Nat} (ha : a < s) (hb : b < s) (hc : c < s) :
    (a * s + b) * s + c < s * s * s := by
  have h1 : a * s + b < s * s :=
    calc a * s + b < a * s + s := by omega
      _ = (a + 1) * s := by rw [Nat.add_mul, Nat.one_mul]
      _ ≤ s * s := Nat.mul_le_mul_right s ha
  calc (a * s + b) * s + c < (a * s + b) * s + s := by omega
    _ = (a * s + b + 1) * s := by rw [Nat.add_mul _ 1, Nat.one_mul]
    _ ≤ s * s * s := Nat.mul_le_mul_right s h1

/-- The position of a voxel among the cells of its block. -/
def cellIndex (k : Nat) (c : Coord) : Fin (blockSize k) :=
  ⟨(blockOffset k c.x * Box.edge k + blockOffset k c.y) * Box.edge k + blockOffset k c.z,
    position_lt (blockOffset_lt k c.x) (blockOffset_lt k c.y) (blockOffset_lt k c.z)⟩

/-- A sum of a multiple of `s` and a remainder below `s` determines both. -/
theorem mul_add_inj {s a b c d : Nat} (hb : b < s) (hd : d < s) (h : a * s + b = c * s + d) :
    a = c ∧ b = d := by
  have hs : 0 < s := Nat.lt_of_le_of_lt (Nat.zero_le b) hb
  constructor
  · have := congrArg (· / s) h
    simpa [Nat.mul_comm _ s, Nat.mul_add_div hs, Nat.div_eq_of_lt hb, Nat.div_eq_of_lt hd]
      using this
  · have := congrArg (· % s) h
    simpa [Nat.mul_add_mod_self_right, Nat.mod_eq_of_lt hb, Nat.mod_eq_of_lt hd] using this

theorem blockOffset_mul_add (k : Nat) (i : Int) {n : Nat} (hn : n < Box.edge k) :
    blockOffset k (i * Box.edge k + n) = n := by
  rw [blockOffset, Int.add_comm, Int.add_mul_emod_self_right,
    Int.emod_eq_of_lt (Int.natCast_nonneg n) (Int.ofNat_lt.mpr hn), Int.toNat_natCast]

/-- A coordinate is the start of its block and the offset there. -/
theorem blockIndex_mul_edge_add (k : Nat) (c : Int) :
    Box.blockIndex k c * Box.edge k + blockOffset k c = c := by
  have hne := Int.ne_of_gt (Box.natCast_edge_pos k)
  rw [Box.blockIndex_eq_ediv, blockOffset, Int.toNat_of_nonneg (Int.emod_nonneg c hne)]
  exact Int.ediv_mul_add_emod c (Box.edge k)

/-- A coordinate is determined by the index of its block and its offset there. -/
theorem eq_of_blockIndex_blockOffset {k : Nat} {a b : Int}
    (hi : Box.blockIndex k a = Box.blockIndex k b) (ho : blockOffset k a = blockOffset k b) :
    a = b := by
  rw [← blockIndex_mul_edge_add k a, hi, ho, blockIndex_mul_edge_add]

/-- Two voxels of one block with one position among its cells are the same. -/
theorem eq_of_cellIndex {k : Nat} {a b : Coord} (hkey : Box.blockKey k a = Box.blockKey k b)
    (h : cellIndex k a = cellIndex k b) : a = b := by
  simp only [Box.blockKey, Vec3.map, Vec3.mk.injEq] at hkey
  have h := Fin.val_eq_of_eq h
  simp only [cellIndex] at h
  obtain ⟨hxy, hz⟩ := mul_add_inj (blockOffset_lt k a.z) (blockOffset_lt k b.z) h
  obtain ⟨hx, hy⟩ := mul_add_inj (blockOffset_lt k a.y) (blockOffset_lt k b.y) hxy
  obtain ⟨kx, ky, kz⟩ := hkey
  exact Vec3.ext (eq_of_blockIndex_blockOffset kx hx) (eq_of_blockIndex_blockOffset ky hy)
    (eq_of_blockIndex_blockOffset kz hz)

namespace Block

variable {V : Type} {k : Nat}

/-- The state of a voxel of the block. -/
def read (b : Block V k) (c : Coord) : Voxel V :=
  match b with
  | .tile state => state
  | .leaf cells => cells[cellIndex k c]

/-- The states of all voxels. -/
def cells : Block V k → Vector (Voxel V) (blockSize k)
  | .tile state => .replicate _ state
  | .leaf cells => cells

/-- Whether the block is a leaf. -/
def isLeaf : Block V k → Bool
  | .tile _ => false
  | .leaf _ => true

/-- The leaf with the state of one voxel replaced. -/
def write (b : Block V k) (c : Coord) (state : Voxel V) : Block V k :=
  .leaf (b.cells.set (cellIndex k c) state)

/-- The leaf with the states of many voxels replaced, in order. -/
def writeAll (b : Block V k) (writes : List (Coord × Voxel V)) : Block V k :=
  .leaf (writes.foldl (fun cells w => cells.set (cellIndex k w.1) w.2) b.cells)

/-- The cells of a block hold what is read from it. -/
theorem cells_cellIndex (b : Block V k) (c : Coord) : b.cells[cellIndex k c] = b.read c := by
  cases b with
  | tile state => simp [cells, read]
  | leaf cells => rfl

/-- Turning a block into a leaf does not change what is read from it. -/
theorem read_leaf_cells (b : Block V k) (c : Coord) : (Block.leaf b.cells).read c = b.read c :=
  b.cells_cellIndex c

/-- Writing a voxel changes what is read at that voxel of the block and nowhere else. -/
theorem read_write {b : Block V k} {c d : Coord} {state : Voxel V}
    (h : Box.blockKey k d = Box.blockKey k c) :
    (b.write c state).read d = if d = c then state else b.read d := by
  simp only [write, read, Fin.getElem_fin, Vector.getElem_set]
  by_cases hdc : d = c
  · simp [hdc]
  · have hne : (cellIndex k c).val ≠ (cellIndex k d).val := fun he =>
      hdc (eq_of_cellIndex h (Fin.ext he.symm))
    rw [if_neg hne, if_neg hdc]
    exact b.cells_cellIndex d

end Block

end SparseVoxel

import SparseVoxel.Box.Basic

/-!
# Blocks of the lattice

A block of size exponent `k` is a cube whose edge is the `k`-th power of two and whose least corner
is a multiple of that edge on each axis; its key is that corner divided by the edge. `mem_ofBlock`
says that every voxel lies in the block of its key and in no other.
-/

namespace SparseVoxel.Box

/-- The edge of a block of size exponent `k`, the `k`-th power of two. -/
def edge (k : Nat) : Nat :=
  Nat.pow 2 k

theorem edge_pos (k : Nat) : 0 < edge k :=
  Nat.pow_pos (by decide)

theorem natCast_edge_pos (k : Nat) : (0 : Int) < edge k :=
  Int.natCast_pos.2 (edge_pos k)

/-- The index of the block that holds a coordinate of one axis. The edge itself is not needed for
it, which matters when it is too long to be written down. -/
def blockIndex (k : Nat) (c : Int) : Int :=
  c >>> k

/-- The index of a block is the coordinate divided by the edge. -/
theorem blockIndex_eq_ediv (k : Nat) (c : Int) : blockIndex k c = c / edge k :=
  Int.shiftRight_eq_div_pow c k

/-- The least coordinate of a block on one axis. -/
def blockStart (k : Nat) (index : Int) : Int :=
  if index = 0 then 0 else index * edge k

theorem blockStart_eq_mul (k : Nat) (index : Int) : blockStart k index = index * edge k := by
  rw [blockStart]
  split
  · next h => rw [h, Int.zero_mul]
  · rfl

/-- The key of the block that holds a voxel. -/
def blockKey (k : Nat) (c : Coord) : Coord :=
  c.map (blockIndex k)

/-- The box of keys of the blocks that a box touches. -/
def blockRange (b : Box) (k : Nat) : Box :=
  ⟨blockKey k b.lo, blockKey k b.hi⟩

/-- The keys of the blocks that a box touches, in lexicographic order. -/
def blocks (b : Box) (k : Nat) : List Coord :=
  (b.blockRange k).coords

/-- The box of the voxels of a block. -/
def ofBlock (k : Nat) (key : Coord) : Box :=
  let lo := key.map (· * (edge k : Int))
  ⟨lo, lo.map (· + ((edge k : Int) - 1))⟩

/-- The part of a box inside a block. -/
def inBlock (b : Box) (k : Nat) (key : Coord) : Box :=
  b.meet (ofBlock k key)

/-- How many blocks a box spans, counted without regard to empty axes. -/
def blockCount (b : Box) (k : Nat) : Int :=
  let r := b.blockRange k
  (r.hi.x - r.lo.x + 1) * (r.hi.y - r.lo.y + 1) * (r.hi.z - r.lo.z + 1)

/-- An index is that of the block between whose bounds a coordinate lies. -/
theorem blockIndex_eq_iff {k : Nat} {c i : Int} :
    blockIndex k c = i ↔ i * edge k ≤ c ∧ c ≤ i * edge k + ((edge k : Int) - 1) := by
  have hpos := natCast_edge_pos k
  rw [blockIndex_eq_ediv]
  constructor
  · rintro rfl
    have hlo := Int.ediv_mul_le c (Int.ne_of_gt hpos)
    have hhi := Int.lt_ediv_add_one_mul_self c hpos
    rw [Int.add_mul, Int.one_mul] at hhi
    exact ⟨hlo, by omega⟩
  · rintro ⟨hlo, hhi⟩
    have hle : i ≤ c / edge k := (Int.le_ediv_iff_mul_le hpos).2 hlo
    have hlt : c / edge k < i + 1 := by
      refine (Int.ediv_lt_iff_lt_mul hpos).2 ?_
      rw [Int.add_mul, Int.one_mul]
      omega
    omega

theorem blockIndex_mul_add (k : Nat) (i : Int) {n : Nat} (hn : n < edge k) :
    blockIndex k (i * edge k + n) = i := by
  refine blockIndex_eq_iff.mpr ⟨?_, ?_⟩ <;> omega

/-- A voxel lies in the block of its key and in no other. -/
theorem mem_ofBlock {k : Nat} {key c : Coord} : c ∈ ofBlock k key ↔ blockKey k c = key := by
  obtain ⟨x, y, z⟩ := c
  obtain ⟨i, j, l⟩ := key
  simp only [blockKey, Vec3.map, Vec3.mk.injEq, blockIndex_eq_iff]
  exact Iff.rfl

theorem blockIndex_mono {k : Nat} {a b : Int} (h : a ≤ b) : blockIndex k a ≤ blockIndex k b := by
  rw [blockIndex_eq_ediv, blockIndex_eq_ediv]
  exact Int.ediv_le_ediv (natCast_edge_pos k) h

/-- The block of a voxel of a box is one of those the box touches. -/
theorem blockKey_mem_blocks {b : Box} {k : Nat} {c : Coord} (h : c ∈ b) :
    blockKey k c ∈ b.blocks k := by
  obtain ⟨hx, hy, hz⟩ := h
  exact mem_coords.2 ⟨⟨blockIndex_mono hx.1, blockIndex_mono hx.2⟩,
    ⟨blockIndex_mono hy.1, blockIndex_mono hy.2⟩, ⟨blockIndex_mono hz.1, blockIndex_mono hz.2⟩⟩

end SparseVoxel.Box

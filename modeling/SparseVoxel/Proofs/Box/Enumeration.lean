import Mathlib.Data.List.Nodup
import Mathlib.Data.List.Perm.Basic
import SparseVoxel.Box.Blocks

/-!
# The enumeration of a box

`Box.coords` lists every voxel of a box once, so its length is the volume (`length_coords`). The
parts of a box in the blocks it touches share out its voxels: the voxels of `inBlock` are those of
the box with the key of the block (`mem_inBlock`), and their number is a count over the
enumeration of the whole box (`volume_inBlock`). None of these parts is empty
(`exists_mem_of_mem_blockRange`).
-/

namespace SparseVoxel.Box

/-! ## Bounds by axis -/

theorem mem_iff_get {b : Box} {c : Coord} :
    c ∈ b ↔ ∀ axis, b.lo.get axis ≤ c.get axis ∧ c.get axis ≤ b.hi.get axis := by
  rw [Axis.forall_iff]
  rfl

theorem nonempty_of_get {b : Box} (h : ∀ axis, b.lo.get axis ≤ b.hi.get axis) :
    b.Nonempty :=
  ⟨h .x, h .y, h .z⟩

theorem volume_eq_one {b : Box} (h : b.lo = b.hi) : b.volume = 1 := by
  simp [volume, dim, Vec3.zipWith, h]

theorem dim_pos {b : Box} (h : b.Nonempty) (axis : Axis) : 0 < b.dim.get axis := by
  obtain ⟨hx, hy, hz⟩ := h
  cases axis <;> simp only [dim, Vec3.zipWith, Vec3.get] <;> omega

/-! ## Ranges -/

theorem length_range (lo hi : Int) : (range lo hi).length = (hi - lo + 1).toNat := by
  simp [range]

theorem ordered_range (lo hi : Int) : (range lo hi).Pairwise (· < ·) := by
  refine List.pairwise_map.mpr (List.pairwise_lt_range.imp ?_)
  intro a b h
  omega

/-! ## Voxels -/

/-- Voxels are listed in lexicographic order, the x axis first. -/
theorem ordered_coords (b : Box) : b.coords.Pairwise fun c d => compare c d = .lt := by
  unfold coords
  refine List.pairwise_flatMap.mpr ⟨fun x _ => ?_, (ordered_range _ _).imp ?_⟩
  · refine List.pairwise_flatMap.mpr ⟨fun y _ => ?_, (ordered_range _ _).imp ?_⟩
    · refine List.pairwise_map.mpr ((ordered_range _ _).imp ?_)
      intro z z' hlt
      exact Coord.compare_eq_lt_iff.mpr (Or.inr ⟨rfl, Or.inr ⟨rfl, hlt⟩⟩)
    · intro y y' hlt c hc d hd
      obtain ⟨z, -, rfl⟩ := List.mem_map.mp hc
      obtain ⟨z', -, rfl⟩ := List.mem_map.mp hd
      exact Coord.compare_eq_lt_iff.mpr (Or.inr ⟨rfl, Or.inl hlt⟩)
  · intro x x' hlt c hc d hd
    simp only [List.mem_flatMap, List.mem_map] at hc hd
    obtain ⟨y, -, z, -, rfl⟩ := hc
    obtain ⟨y', -, z', -, rfl⟩ := hd
    exact Coord.compare_eq_lt_iff.mpr (Or.inl hlt)

theorem nodup_coords (b : Box) : b.coords.Nodup := by
  refine (ordered_coords b).imp ?_
  rintro c d h rfl
  rw [Std.ReflOrd.compare_self] at h
  cases h

theorem length_coords (b : Box) : b.coords.length = b.volume := by
  simp only [coords, List.length_flatMap, List.length_map, length_range, List.map_const',
    List.sum_replicate_nat, volume, dim, Vec3.zipWith, Nat.mul_assoc]

/-! ## Blocks -/

theorem mem_blocks {b : Box} {k : Nat} {key : Coord} :
    key ∈ b.blocks k ↔ key ∈ b.blockRange k :=
  mem_coords

theorem nodup_blocks (b : Box) (k : Nat) : (b.blocks k).Nodup :=
  nodup_coords _

theorem mem_inBlock {b : Box} {k : Nat} {key c : Coord} :
    c ∈ b.inBlock k key ↔ c ∈ b ∧ blockKey k c = key := by
  rw [inBlock, mem_meet, mem_ofBlock]

theorem mem_coords_inBlock {b : Box} {k : Nat} {key c : Coord} :
    c ∈ (b.inBlock k key).coords ↔ c ∈ b ∧ blockKey k c = key :=
  mem_coords.trans mem_inBlock

/-- Between the ends of an interval some coordinate lies in each block that the interval touches. -/
theorem exists_blockIndex_eq {k : Nat} {lo hi i : Int} (h : lo ≤ hi) (hlo : blockIndex k lo ≤ i)
    (hhi : i ≤ blockIndex k hi) : ∃ c, (lo ≤ c ∧ c ≤ hi) ∧ blockIndex k c = i := by
  rcases Int.lt_or_eq_of_le hlo with hlt | rfl
  · -- the block begins after the lower end
    have hpos := natCast_edge_pos k
    rw [blockIndex_eq_ediv] at hlt hhi
    have hstart := (Int.ediv_lt_iff_lt_mul hpos).mp hlt
    have hend := (Int.le_ediv_iff_mul_le hpos).mp hhi
    exact ⟨i * edge k, ⟨by omega, hend⟩, blockIndex_eq_iff.mpr ⟨Int.le_refl _, by omega⟩⟩
  · exact ⟨lo, ⟨Int.le_refl lo, h⟩, rfl⟩

/-- Every block that a box touches holds a voxel of the box. -/
theorem exists_mem_of_mem_blockRange {b : Box} {k : Nat} {key : Coord} (h : b.Nonempty)
    (hkey : key ∈ b.blockRange k) : ∃ c ∈ b, blockKey k c = key := by
  obtain ⟨⟨hxl, hxh⟩, ⟨hyl, hyh⟩, hzl, hzh⟩ := hkey
  obtain ⟨x, hx, hxi⟩ := exists_blockIndex_eq h.1 hxl hxh
  obtain ⟨y, hy, hyi⟩ := exists_blockIndex_eq h.2.1 hyl hyh
  obtain ⟨z, hz, hzi⟩ := exists_blockIndex_eq h.2.2 hzl hzh
  exact ⟨⟨x, y, z⟩, ⟨hx, hy, hz⟩, Vec3.ext hxi hyi hzi⟩

/-- The blocks that a box touches are those of its voxels. -/
theorem mem_blockRange_iff {b : Box} {k : Nat} {key : Coord} (h : b.Nonempty) :
    key ∈ b.blockRange k ↔ ∃ c ∈ b, blockKey k c = key := by
  constructor
  · exact exists_mem_of_mem_blockRange h
  · rintro ⟨c, hc, rfl⟩
    exact mem_blocks.mp (blockKey_mem_blocks hc)

theorem length_blocks {b : Box} (h : b.Nonempty) (k : Nat) :
    ((b.blocks k).length : Int) = b.blockCount k := by
  obtain ⟨hx, hy, hz⟩ := h
  have hx := blockIndex_mono (k := k) hx
  have hy := blockIndex_mono (k := k) hy
  have hz := blockIndex_mono (k := k) hz
  rw [blocks, length_coords]
  simp only [volume, dim, Vec3.zipWith, blockCount, blockRange, blockKey, Vec3.map,
    Int.natCast_mul]
  rw [Int.toNat_of_nonneg (by omega), Int.toNat_of_nonneg (by omega),
    Int.toNat_of_nonneg (by omega)]

theorem coords_inBlock_perm (b : Box) (k : Nat) (key : Coord) :
    (b.inBlock k key).coords.Perm (b.coords.filter fun c => blockKey k c == key) := by
  refine (List.perm_ext_iff_of_nodup (nodup_coords _) ((nodup_coords b).filter _)).mpr ?_
  intro c
  simp only [mem_coords, mem_inBlock, List.mem_filter, beq_iff_eq]

/-- The size of the part of a box in a block, counted over the whole box. -/
theorem volume_inBlock (b : Box) (k : Nat) (key : Coord) :
    (b.inBlock k key).volume = b.coords.countP fun c => blockKey k c == key := by
  rw [← length_coords, (coords_inBlock_perm b k key).length_eq, List.countP_eq_length_filter]

theorem hi_mem {b : Box} (h : b.Nonempty) : b.hi ∈ b :=
  ⟨⟨h.1, Int.le_refl _⟩, ⟨h.2.1, Int.le_refl _⟩, ⟨h.2.2, Int.le_refl _⟩⟩

theorem nonempty_ofBlock (k : Nat) (key : Coord) : (ofBlock k key).Nonempty := by
  have hpos := natCast_edge_pos k
  simp only [ofBlock, Nonempty, Vec3.map]
  exact ⟨by omega, by omega, by omega⟩

theorem dim_ofBlock (k : Nat) (key : Coord) : (ofBlock k key).dim = .replicate (edge k) := by
  have hlength : ∀ n : Int, (n + ((edge k : Int) - 1) - n + 1).toNat = edge k := by
    intro n
    omega
  exact Vec3.ext (hlength _) (hlength _) (hlength _)

theorem blockKey_lo (k : Nat) (key : Coord) : blockKey k (ofBlock k key).lo = key :=
  mem_ofBlock.mp (lo_mem (nonempty_ofBlock k key))

/-- A box that contains both corners of a block contains the block. -/
theorem containsBox_ofBlock_iff {b : Box} {k : Nat} {key : Coord} :
    b.containsBox (ofBlock k key) = true ↔ ∀ c, blockKey k c = key → c ∈ b := by
  simp only [containsBox, Bool.and_eq_true, decide_eq_true_eq]
  constructor
  · rintro ⟨⟨hx, hy, hz⟩, hx', hy', hz'⟩ c hc
    obtain ⟨cx, cy, cz⟩ := mem_ofBlock.mpr hc
    exact ⟨⟨by omega, by omega⟩, ⟨by omega, by omega⟩, ⟨by omega, by omega⟩⟩
  · intro h
    have hne := nonempty_ofBlock k key
    exact ⟨h _ (blockKey_lo k key), h _ (mem_ofBlock.mp (hi_mem hne))⟩

end SparseVoxel.Box

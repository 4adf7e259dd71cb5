import SparseVoxel.Proofs.Grid.Stored

/-!
# Two ways to find the stored blocks of a box

The stored blocks that share a voxel with a box are found by walking the blocks of the box, or by
scanning the keys of the leaves and then those of the tiles. `Finds` says what is to be found: the
keys of these blocks, each of them once. A walk meets no key twice because the blocks of the box are
all different, a scan because no key is both that of a leaf and that of a tile; the order in which
the leaves and the tiles are gone through does not matter (`finds_scan`).

`storedKeys_finds` is the main statement. The way is chosen by comparing the number of blocks of
the box with the number of stored ones, and the choice has no influence on which keys are found.
-/

namespace SparseVoxel.Grid

variable {V : Type} {k : Nat} {g : Grid V k} {box : Box}

/-- The keys of the stored leaves and tiles that share a voxel with a box, each of them once. -/
structure Finds (g : Grid V k) (box : Box) (keys : List Coord) : Prop where
  mem_iff : ∀ key, key ∈ keys ↔
    (key ∈ g.leafKeys ∨ key ∈ g.tileKeys) ∧ ∃ c ∈ box, c ∈ Box.ofBlock k key
  nodup : keys.Nodup

/-- Two lists of what is to be found differ in their order at most. -/
theorem Finds.perm {keys keys' : List Coord} (h : g.Finds box keys) (h' : g.Finds box keys') :
    keys.Perm keys' :=
  (List.perm_ext_iff_of_nodup h.nodup h'.nodup).mpr fun key =>
    (h.mem_iff key).trans (h'.mem_iff key).symm

/-- A block shares a voxel with a box if its key is in the range of the box. -/
theorem mem_blockRange_iff_meets (h : box.Nonempty) {key : Coord} :
    key ∈ box.blockRange k ↔ ∃ c ∈ box, c ∈ Box.ofBlock k key := by
  rw [Box.mem_blockRange_iff h]
  exact exists_congr fun c => and_congr_right fun _ => Box.mem_ofBlock.symm

theorem finds_walkedKeys (g : Grid V k) (h : box.Nonempty) : g.Finds box (g.walkedKeys box) where
  mem_iff key := by
    rw [mem_walkedKeys, isSome_block?_iff, mem_blockRange_iff_meets h, and_comm]
  nodup := nodup_walkedKeys g box

/-- A scan may go through the leaves, and through the tiles, in any order. -/
theorem finds_scan (h : box.Nonempty) {leaves tiles : List Coord}
    (hleaves : leaves.Perm g.leafKeys) (htiles : tiles.Perm g.tileKeys) :
    g.Finds box ((leaves ++ tiles).filter fun key => decide (key ∈ box.blockRange k)) where
  mem_iff key := by
    rw [List.mem_filter, List.mem_append, hleaves.mem_iff, htiles.mem_iff, decide_eq_true_eq,
      mem_blockRange_iff_meets h]
  nodup := by
    refine List.Nodup.filter _ ((hleaves.append htiles).nodup_iff.mpr ?_)
    exact (nodup_leafKeys g).append (nodup_tileKeys g) (disjoint_leafKeys_tileKeys g)

theorem finds_scannedKeys (g : Grid V k) (h : box.Nonempty) :
    g.Finds box (g.scannedKeys box) := by
  rw [scannedKeys_eq]
  exact finds_scan h (.refl _) (.refl _)

/-- The way is chosen by comparing the number of blocks that would be walked with the number of
keys that would be scanned. -/
theorem storedKeys_eq (g : Grid V k) (h : box.Nonempty) : g.storedKeys box =
    if (box.blocks k).length ≤ g.leafCount + g.tileCount then g.walkedKeys box
    else g.scannedKeys box := by
  unfold storedKeys
  rw [← Box.length_blocks h, size_blocks]
  simp only [Int.ofNat_le]

/-- **Walking and scanning agree.** For a box that is not empty, both find the keys of the stored
leaves and tiles that share a voxel with the box, each of them once, in whichever order a scan goes
through the leaves and through the tiles. So the choice between them, which compares the number of
blocks of the box with the number of stored ones, never changes which keys are found. -/
theorem storedKeys_finds (g : Grid V k) {box : Box} (h : box.Nonempty) :
    g.Finds box (g.walkedKeys box) ∧
      (∀ leaves tiles : List Coord, leaves.Perm g.leafKeys → tiles.Perm g.tileKeys →
        g.Finds box ((leaves ++ tiles).filter fun key => decide (key ∈ box.blockRange k))) ∧
      g.Finds box (g.scannedKeys box) ∧
      (g.storedKeys box = if (box.blocks k).length ≤ g.leafCount + g.tileCount
        then g.walkedKeys box else g.scannedKeys box) ∧
      g.Finds box (g.storedKeys box) ∧ (g.walkedKeys box).Perm (g.scannedKeys box) := by
  have hwalked := finds_walkedKeys g h
  have hscanned := finds_scannedKeys g h
  have hchoice := storedKeys_eq g h
  refine ⟨hwalked, fun _ _ => finds_scan h, hscanned, hchoice, ?_, hwalked.perm hscanned⟩
  rw [hchoice]
  split
  · exact hwalked
  · exact hscanned

/-- A tile below zero and a leaf above it: a box of two blocks is walked, and one of three blocks
scanned, which finds the leaf first. -/
theorem storedKeys_finds_of_leaf_and_tile :
    let g : Grid Int32 1 :=
      ((Grid.empty 0).fill (Box.ofBlock 1 ⟨-1, 0, 0⟩) ⟨7, true⟩).write ⟨0, 1, 0⟩ ⟨9, true⟩
    let small : Box := ⟨⟨-1, 1, 0⟩, ⟨0, 1, 0⟩⟩
    let large : Box := ⟨⟨-3, 1, 0⟩, ⟨0, 1, 0⟩⟩
    (small.Nonempty ∧ g.storedKeys small = [⟨-1, 0, 0⟩, ⟨0, 0, 0⟩] ∧
        g.Finds small (g.storedKeys small)) ∧
      large.Nonempty ∧ g.storedKeys large = [⟨0, 0, 0⟩, ⟨-1, 0, 0⟩] ∧
        g.Finds large (g.storedKeys large) := by
  intro g small large
  have hsmall : small.Nonempty := by decide
  have hlarge : large.Nonempty := by decide
  obtain ⟨-, -, -, -, hfinds, -⟩ := storedKeys_finds g hsmall
  obtain ⟨-, -, -, -, hfinds', -⟩ := storedKeys_finds g hlarge
  exact ⟨⟨hsmall, by decide +kernel, hfinds⟩, hlarge, by decide +kernel, hfinds'⟩

end SparseVoxel.Grid

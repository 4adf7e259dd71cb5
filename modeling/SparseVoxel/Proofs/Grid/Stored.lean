import SparseVoxel.Grid.Window
import SparseVoxel.Grid.Lemmas
import SparseVoxel.Proofs.Box.Enumeration

/-!
# The stored blocks of a box

A stored block is a leaf or a tile (`isSome_block?_iff`), and no key is that of both
(`disjoint_leafKeys_tileKeys`). Whether the blocks of a box are walked or the store is scanned, the
keys that are found are those of the stored blocks in the range of the box (`mem_storedKeys`), each
of them once (`nodup_storedKeys`). A voxel of the box whose block is not among them reads as unset
(`read_of_not_stored`).
-/

namespace SparseVoxel.Grid

variable {V : Type} {k : Nat}

/-! ## The store as a list -/

theorem mem_toList_blocks {g : Grid V k} {key : Coord} {b : Block V k} :
    (key, b) ∈ g.blocks.toList ↔ g.block? key = some b :=
  Std.TreeMap.mem_toList_iff_getElem?_eq_some

theorem nodup_keys_toList {W : Type} (m : Std.TreeMap Coord W) :
    (m.toList.map Prod.fst).Nodup := by
  rw [Std.TreeMap.map_fst_toList_eq_keys]
  exact Std.TreeMap.nodup_keys

theorem read_of_block? {g : Grid V k} {key : Coord} {b : Block V k} (h : g.block? key = some b)
    {c : Coord} (hc : Box.blockKey k c = key) : g.read c = b.read c := by
  rw [read, hc, blockAt, h, Option.getD_some]

theorem read_of_not_stored {g : Grid V k} {c : Coord}
    (h : (g.block? (Box.blockKey k c)).isSome = false) : g.read c = g.unset := by
  rw [Option.isSome_eq_false_iff, Option.isNone_iff_eq_none] at h
  rw [read, blockAt, h, Option.getD_none, Block.read]

/-- A block that is not a leaf reads the same everywhere. -/
theorem read_eq_of_not_leaf {g : Grid V k} {c d : Coord}
    (hkey : Box.blockKey k d = Box.blockKey k c)
    (h : ¬ ∃ cells, g.block? (Box.blockKey k c) = some (.leaf cells)) : g.read d = g.read c := by
  rw [read, read, hkey, blockAt]
  cases hblock : g.block? (Box.blockKey k c) with
  | none => rfl
  | some b =>
    cases b with
    | tile state => rfl
    | leaf cells => exact absurd ⟨cells, hblock⟩ h

/-! ## Leaves and tiles -/

/-- The keys of the stored leaves. -/
def leafKeys (g : Grid V k) : List Coord :=
  (g.blocks.toList.filter fun p => p.2.isLeaf).map Prod.fst

/-- The keys of the stored tiles. -/
def tileKeys (g : Grid V k) : List Coord :=
  (g.blocks.toList.filter fun p => !p.2.isLeaf).map Prod.fst

theorem length_leafKeys (g : Grid V k) : g.leafKeys.length = g.leafCount := by
  rw [leafKeys, List.length_map, leafCount, List.countP_eq_length_filter]

theorem length_tileKeys (g : Grid V k) : g.tileKeys.length = g.tileCount := by
  rw [tileKeys, List.length_map, tileCount, List.countP_eq_length_filter]

theorem nodup_leafKeys (g : Grid V k) : g.leafKeys.Nodup :=
  (nodup_keys_toList g.blocks).sublist (List.filter_sublist.map _)

theorem nodup_tileKeys (g : Grid V k) : g.tileKeys.Nodup :=
  (nodup_keys_toList g.blocks).sublist (List.filter_sublist.map _)

/-- The keys of the stored blocks that pass a test. -/
theorem mem_keys_filter (test : Block V k → Bool) {g : Grid V k} {key : Coord} :
    key ∈ (g.blocks.toList.filter fun p => test p.2).map Prod.fst ↔
      ∃ b, g.block? key = some b ∧ test b = true := by
  rw [List.mem_map]
  constructor
  · rintro ⟨⟨key, b⟩, hb, rfl⟩
    obtain ⟨hb, htest⟩ := List.mem_filter.mp hb
    exact ⟨b, mem_toList_blocks.mp hb, htest⟩
  · rintro ⟨b, hb, htest⟩
    exact ⟨(key, b), List.mem_filter.mpr ⟨mem_toList_blocks.mpr hb, htest⟩, rfl⟩

theorem mem_leafKeys {g : Grid V k} {key : Coord} :
    key ∈ g.leafKeys ↔ ∃ cells, g.block? key = some (.leaf cells) := by
  rw [leafKeys, mem_keys_filter Block.isLeaf]
  constructor
  · rintro ⟨b, hb, hleaf⟩
    cases b with
    | tile state => cases hleaf
    | leaf cells => exact ⟨cells, hb⟩
  · rintro ⟨cells, hb⟩
    exact ⟨.leaf cells, hb, rfl⟩

theorem mem_tileKeys {g : Grid V k} {key : Coord} :
    key ∈ g.tileKeys ↔ ∃ state, g.block? key = some (.tile state) := by
  rw [tileKeys, mem_keys_filter fun b => !b.isLeaf]
  constructor
  · rintro ⟨b, hb, htile⟩
    cases b with
    | tile state => exact ⟨state, hb⟩
    | leaf cells => cases htile
  · rintro ⟨state, hb⟩
    exact ⟨.tile state, hb, rfl⟩

/-- No key is both that of a leaf and that of a tile. -/
theorem disjoint_leafKeys_tileKeys (g : Grid V k) : g.leafKeys.Disjoint g.tileKeys := by
  intro key hleaf htile
  obtain ⟨cells, hcells⟩ := mem_leafKeys.mp hleaf
  obtain ⟨state, hstate⟩ := mem_tileKeys.mp htile
  cases hcells.symm.trans hstate

/-- A stored block is a leaf or a tile. -/
theorem isSome_block?_iff {g : Grid V k} {key : Coord} :
    (g.block? key).isSome = true ↔ key ∈ g.leafKeys ∨ key ∈ g.tileKeys := by
  rw [mem_leafKeys, mem_tileKeys]
  constructor
  · intro h
    obtain ⟨b, hb⟩ := Option.isSome_iff_exists.mp h
    cases b with
    | tile state => exact Or.inr ⟨state, hb⟩
    | leaf cells => exact Or.inl ⟨cells, hb⟩
  · rintro (⟨cells, hb⟩ | ⟨state, hb⟩)
    · rw [hb]
      rfl
    · rw [hb]
      rfl

theorem size_blocks (g : Grid V k) : g.blocks.size = g.leafCount + g.tileCount := by
  rw [← length_leafKeys, ← length_tileKeys, leafKeys, tileKeys, List.length_map, List.length_map,
    ← List.length_append, ← Std.TreeMap.length_toList]
  exact (List.filter_append_perm _ _).length_eq.symm

/-! ## Keys found in a box -/

theorem mem_walkedKeys {g : Grid V k} {box : Box} {key : Coord} :
    key ∈ g.walkedKeys box ↔ key ∈ box.blockRange k ∧ (g.block? key).isSome = true := by
  rw [walkedKeys, List.mem_filter, Box.mem_blocks, Std.TreeMap.contains_eq_isSome_getElem?]
  rfl

theorem nodup_walkedKeys (g : Grid V k) (box : Box) : (g.walkedKeys box).Nodup :=
  (Box.nodup_blocks box k).filter _

/-- A scan goes through the keys of the leaves and then through those of the tiles. -/
theorem scannedKeys_eq (g : Grid V k) (box : Box) : g.scannedKeys box =
    (g.leafKeys ++ g.tileKeys).filter fun key => decide (key ∈ box.blockRange k) := by
  simp only [scannedKeys, leafKeys, tileKeys, List.partition_eq_filter_filter, List.filter_append,
    List.filter_map, List.filter_filter, List.map_append, Function.comp_def, Bool.and_comm]

theorem mem_scannedKeys {g : Grid V k} {box : Box} {key : Coord} :
    key ∈ g.scannedKeys box ↔ key ∈ box.blockRange k ∧ (g.block? key).isSome = true := by
  rw [scannedKeys_eq, List.mem_filter, decide_eq_true_eq, List.mem_append, isSome_block?_iff,
    and_comm]

theorem nodup_scannedKeys (g : Grid V k) (box : Box) : (g.scannedKeys box).Nodup := by
  rw [scannedKeys_eq]
  exact ((nodup_leafKeys g).append (nodup_tileKeys g) (disjoint_leafKeys_tileKeys g)).filter _

theorem mem_storedKeys {g : Grid V k} {box : Box} {key : Coord} :
    key ∈ g.storedKeys box ↔ key ∈ box.blockRange k ∧ (g.block? key).isSome = true := by
  unfold storedKeys
  split
  · exact mem_walkedKeys
  · exact mem_scannedKeys

theorem nodup_storedKeys (g : Grid V k) (box : Box) : (g.storedKeys box).Nodup := by
  unfold storedKeys
  split
  · exact nodup_walkedKeys g box
  · exact nodup_scannedKeys g box

theorem blockKey_mem_storedKeys {g : Grid V k} {box : Box} {c : Coord} (hc : c ∈ box) :
    Box.blockKey k c ∈ g.storedKeys box ↔ (g.block? (Box.blockKey k c)).isSome = true := by
  rw [mem_storedKeys]
  exact and_iff_right (Box.mem_blocks.mp (Box.blockKey_mem_blocks hc))

end SparseVoxel.Grid

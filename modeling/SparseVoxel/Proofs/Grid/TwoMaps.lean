import SparseVoxel.Proofs.Grid.Grouping
import SparseVoxel.Proofs.Grid.Prune

/-!
# Leaves and tiles in maps of their own

`Grid` has one map of blocks, so that a key is that of a leaf or that of a tile by construction. A
store may as well have one map for its leaves and another for its tiles (`TwoMaps`). There a block
that becomes a leaf is taken out of the map of tiles, a block that is filled is taken out of the map
of leaves, and a leaf that collapses moves to the other map: nothing but these steps keeps the maps
apart.

`TwoMaps.Stores` says that no key is in both maps and that they hold the blocks of a grid. Every
operation preserves it, each step against the step of `Grid`. Collapsing a leaf to the background
takes no tile out, which is right only because the maps are apart (`Stores.collapse`).
-/

namespace SparseVoxel

/-- A store with a map of leaves and a map of tiles. -/
structure TwoMaps (V : Type) (k : Nat) where
  background : V
  leaves : Std.TreeMap Coord (Vector (Voxel V) (blockSize k))
  tiles : Std.TreeMap Coord (Voxel V)

namespace TwoMaps

variable {V : Type} {k : Nat}

/-- The store that holds nothing. -/
def empty (background : V) : TwoMaps V k :=
  ⟨background, ∅, ∅⟩

/-- The state of a voxel whose block is absent. -/
def unset (s : TwoMaps V k) : Voxel V :=
  ⟨s.background, false⟩

/-- The block under a key. It is looked for among the leaves first. -/
def block? (s : TwoMaps V k) (key : Coord) : Option (Block V k) :=
  match s.leaves[key]? with
  | some cells => some (.leaf cells)
  | none => s.tiles[key]?.map .tile

/-! ## Steps -/

/-- Turns the block under a key into a leaf: its tile, if there is one, is taken out. -/
def densify (s : TwoMaps V k) (key : Coord) : TwoMaps V k :=
  match s.leaves[key]? with
  | some _ => s
  | none =>
    { s with
      leaves := s.leaves.insert key (.replicate _ (s.tiles[key]?.getD s.unset))
      tiles := s.tiles.erase key }

/-- Changes the cells of the block under a key, which becomes a leaf for it. -/
def alterLeaf (s : TwoMaps V k) (key : Coord) (f : Block V k → Block V k) : TwoMaps V k :=
  let dense := s.densify key
  { dense with leaves := dense.leaves.modify key fun cells => (f (.leaf cells)).cells }

/-- Sets the state of a voxel. -/
def write (s : TwoMaps V k) (c : Coord) (state : Voxel V) : TwoMaps V k :=
  s.alterLeaf (Box.blockKey k c) (·.write c state)

/-- Switches a voxel on or off, keeping its value. -/
def setActive (s : TwoMaps V k) (c : Coord) (on : Bool) : TwoMaps V k :=
  s.alterLeaf (Box.blockKey k c) fun b => b.write c { b.read c with active := on }

/-- Sets the states of voxels of one block, in order. -/
def writeBlock (s : TwoMaps V k) (key : Coord) (writes : List (Coord × Voxel V)) : TwoMaps V k :=
  s.alterLeaf key (·.writeAll writes)

/-- Sets the states of many voxels block by block. -/
def writeAll (s : TwoMaps V k) (writes : List (Coord × Voxel V)) : TwoMaps V k :=
  (Grid.groupByBlock k writes).foldl (fun s group => s.writeBlock group.1 group.2) s

/-- Resets every voxel. -/
def clear (s : TwoMaps V k) : TwoMaps V k :=
  { s with leaves := ∅, tiles := ∅ }

section Tiles

variable [BEq V]

/-- Stores a tile, or nothing if the tile would read as the absent block does. -/
def putTile (s : TwoMaps V k) (key : Coord) (state : Voxel V) : TwoMaps V k :=
  { s with
    leaves := s.leaves.erase key
    tiles := if state == s.unset then s.tiles.erase key else s.tiles.insert key state }

/-- Fills the part of a block that lies in a box. -/
def fillBlock (box : Box) (state : Voxel V) (s : TwoMaps V k) (key : Coord) : TwoMaps V k :=
  if box.containsBox (Box.ofBlock k key) then s.putTile key state
  else s.writeBlock key ((box.inBlock k key).coords.map (·, state))

/-- Sets every voxel of a box to one state. -/
def fill (s : TwoMaps V k) (box : Box) (state : Voxel V) : TwoMaps V k :=
  if box.isEmpty then s
  else (box.blocks k).foldl (fillBlock box state) s

/-- Replaces a leaf by a tile, or by nothing if the tile would read as the absent block does. -/
def collapse (s : TwoMaps V k) (key : Coord) (state : Voxel V) : TwoMaps V k :=
  { s with
    leaves := s.leaves.erase key
    tiles := if state == s.unset then s.tiles else s.tiles.insert key state }

variable {K : Type} [Scalar K] [VoxelValue K V]

/-- Collapses a leaf if its cells agree. -/
def pruneLeaf (tolerance : K) (s : TwoMaps V k)
    (leaf : Coord × Vector (Voxel V) (blockSize k)) : TwoMaps V k :=
  match Grid.collapsed? tolerance leaf.2.toList with
  | some state => s.collapse leaf.1 state
  | none => s

/-- Collapses every leaf that can be. -/
def prune (tolerance : K) (s : TwoMaps V k) : TwoMaps V k :=
  s.leaves.toList.foldl (pruneLeaf tolerance) s

end Tiles

/-! ## Stores of a grid -/

/-- The two maps are apart and hold the blocks of a grid. -/
structure Stores (s : TwoMaps V k) (g : Grid V k) : Prop where
  background_eq : s.background = g.background
  disjoint : s.leaves.keys.Disjoint s.tiles.keys
  block?_eq : ∀ key, s.block? key = g.block? key

/-- What the two maps have under a key, and the block that this is. -/
inductive Slot : Option (Vector (Voxel V) (blockSize k)) → Option (Voxel V) →
    Option (Block V k) → Prop
  | absent : Slot none none none
  | leaf (cells : Vector (Voxel V) (blockSize k)) : Slot (some cells) none (some (.leaf cells))
  | tile (state : Voxel V) : Slot none (some state) (some (.tile state))

namespace Stores

variable {s : TwoMaps V k} {g : Grid V k}

theorem of_slot (hbackground : s.background = g.background)
    (hslot : ∀ key, Slot s.leaves[key]? s.tiles[key]? (g.block? key)) : s.Stores g where
  background_eq := hbackground
  disjoint key hleaf htile := by
    rw [Std.TreeMap.mem_keys, Std.TreeMap.mem_iff_isSome_getElem?] at hleaf htile
    have hkey := hslot key
    generalize s.leaves[key]? = leaf?, s.tiles[key]? = tile?, g.block? key = b? at hkey hleaf htile
    cases hkey with
    | absent => cases hleaf
    | leaf cells => cases htile
    | tile state => cases hleaf
  block?_eq key := by
    have hkey := hslot key
    rw [block?]
    generalize s.leaves[key]? = leaf?, s.tiles[key]? = tile?, g.block? key = b? at hkey
    cases hkey with
    | absent => rfl
    | leaf cells => rfl
    | tile state => rfl

theorem slot (h : s.Stores g) (key : Coord) :
    Slot s.leaves[key]? s.tiles[key]? (g.block? key) := by
  have hkey := h.disjoint (a := key)
  rw [Std.TreeMap.mem_keys, Std.TreeMap.mem_keys, Std.TreeMap.mem_iff_isSome_getElem?,
    Std.TreeMap.mem_iff_isSome_getElem?] at hkey
  rw [← h.block?_eq key, block?]
  cases hleaf : s.leaves[key]? with
  | none =>
    cases htile : s.tiles[key]? with
    | none => exact .absent
    | some state => exact .tile state
  | some cells =>
    cases htile : s.tiles[key]? with
    | none => exact .leaf cells
    | some state =>
      rw [hleaf, htile] at hkey
      exact absurd rfl (hkey rfl)

/-- A step that changes what is under one key. -/
theorem of_slot_at {s' : TwoMaps V k} {g' : Grid V k} (h : s.Stores g) (key : Coord)
    (hbackground : s'.background = g'.background)
    (hkey : Slot s'.leaves[key]? s'.tiles[key]? (g'.block? key))
    (hother : ∀ other ≠ key, s'.leaves[other]? = s.leaves[other]? ∧
      s'.tiles[other]? = s.tiles[other]? ∧ g'.block? other = g.block? other) : s'.Stores g' := by
  refine of_slot hbackground fun other => ?_
  by_cases he : other = key
  · rw [he]
    exact hkey
  · obtain ⟨hleaf, htile, hblock⟩ := hother other he
    rw [hleaf, htile, hblock]
    exact h.slot other

theorem unset_eq (h : s.Stores g) : s.unset = g.unset := by
  rw [unset, Grid.unset, h.background_eq]

theorem getElem?_tiles (h : s.Stores g) {key : Coord} (hleaf : key ∈ s.leaves) :
    s.tiles[key]? = none := by
  refine Std.TreeMap.getElem?_eq_none fun htile => ?_
  exact h.disjoint (Std.TreeMap.mem_keys.mpr hleaf) (Std.TreeMap.mem_keys.mpr htile)

/-! ## Each step against that of a grid -/

theorem empty (background : V) :
    (TwoMaps.empty background : TwoMaps V k).Stores (.empty background) :=
  of_slot rfl fun key => by simpa [TwoMaps.empty, Grid.empty, Grid.block?] using Slot.absent

theorem clear (h : s.Stores g) : s.clear.Stores g.clear :=
  of_slot h.background_eq fun key => by
    simpa [TwoMaps.clear, Grid.clear, Grid.block?] using Slot.absent

theorem densify (h : s.Stores g) (key : Coord) : (s.densify key).Stores (g.densify key) := by
  have hkey := h.slot key
  have hdense : (g.densify key).block? key = some (.leaf (g.blockAt key).cells) := by
    rw [Grid.densify, Grid.block?_alterBlock, if_pos rfl]
  have hother : ∀ other ≠ key, (g.densify key).block? other = g.block? other := fun other he => by
    rw [Grid.densify, Grid.block?_alterBlock, if_neg he]
  rw [Grid.blockAt, ← h.unset_eq] at hdense
  unfold TwoMaps.densify
  split
  · next cells hleaf =>
    refine h.of_slot_at key h.background_eq ?_ fun other he => ⟨rfl, rfl, hother other he⟩
    rw [hdense]
    rw [hleaf] at hkey ⊢
    generalize s.tiles[key]? = tile?, g.block? key = b? at hkey
    cases hkey with
    | leaf cells => exact .leaf cells
  · next hleaf =>
    refine h.of_slot_at key h.background_eq ?_ fun other he => ⟨?_, ?_, hother other he⟩
    · rw [Std.TreeMap.getElem?_insert_self, Std.TreeMap.getElem?_erase_self, hdense]
      rw [hleaf] at hkey
      generalize s.tiles[key]? = tile?, g.block? key = b? at hkey
      cases hkey with
      | absent => exact .leaf _
      | tile state => exact .leaf _
    · rw [Std.TreeMap.getElem?_insert, if_neg (Coord.compare_ne he)]
    · rw [Std.TreeMap.getElem?_erase, if_neg (Coord.compare_ne he)]

/-- A block may become a leaf before it is changed, if the change does not tell the two apart. -/
theorem alterLeaf (h : s.Stores g) (key : Coord) {f : Block V k → Block V k}
    (hf : ∀ b, f b = .leaf (f (.leaf b.cells)).cells) :
    (s.alterLeaf key f).Stores (g.alterBlock key f) := by
  have hdense := h.densify key
  have hkey := hdense.slot key
  rw [Grid.densify, Grid.block?_alterBlock, if_pos rfl] at hkey
  refine hdense.of_slot_at key hdense.background_eq ?_ fun other he => ⟨?_, rfl, ?_⟩
  · rw [Grid.block?_alterBlock, if_pos rfl, hf]
    show Slot ((s.densify key).leaves.modify key _)[key]? (s.densify key).tiles[key]? _
    rw [Std.TreeMap.getElem?_modify_self]
    generalize (s.densify key).leaves[key]? = leaf? at hkey ⊢
    generalize (s.densify key).tiles[key]? = tile? at hkey ⊢
    generalize (g.blockAt key).cells = cells at hkey ⊢
    cases hkey with
    | leaf cells => exact .leaf _
  · show ((s.densify key).leaves.modify key _)[other]? = _
    rw [Std.TreeMap.getElem?_modify, if_neg (Coord.compare_ne he)]
  · rw [Grid.densify, Grid.block?_alterBlock, Grid.block?_alterBlock, if_neg he, if_neg he]

theorem write (h : s.Stores g) (c : Coord) (state : Voxel V) :
    (s.write c state).Stores (g.write c state) :=
  h.alterLeaf _ fun _ => rfl

theorem setActive (h : s.Stores g) (c : Coord) (on : Bool) :
    (s.setActive c on).Stores (g.setActive c on) :=
  h.alterLeaf _ fun b => by
    simp only [Block.read_leaf_cells]
    rfl

theorem writeBlock (h : s.Stores g) (key : Coord) (writes : List (Coord × Voxel V)) :
    (s.writeBlock key writes).Stores (g.alterBlock key (·.writeAll writes)) :=
  h.alterLeaf key fun _ => rfl

theorem writeAll (h : s.Stores g) (writes : List (Coord × Voxel V)) :
    (s.writeAll writes).Stores (g.writeAll writes) := by
  rw [TwoMaps.writeAll, Grid.writeAll_eq_foldl]
  induction Grid.groupByBlock k writes generalizing s g with
  | nil => exact h
  | cons group groups ih => exact ih (h.writeBlock group.1 group.2)

/-- The leaves are those among the blocks of the grid. -/
theorem map_toList_leaves (h : s.Stores g) :
    s.leaves.toList.map (fun p => (p.1, Block.leaf p.2)) =
      g.blocks.toList.filter fun p => p.2.isLeaf := by
  have hleaves : (s.leaves.toList.map fun p => (p.1, Block.leaf p.2)).Pairwise
      fun p q => compareOn Prod.fst p q = .lt :=
    List.pairwise_map.mpr Std.TreeMap.ordered_keys_toList
  have hblocks : (g.blocks.toList.filter fun p => p.2.isLeaf).Pairwise
      fun p q => compareOn Prod.fst p q = .lt :=
    Std.TreeMap.ordered_keys_toList.sublist List.filter_sublist
  refine eq_of_ordered hleaves hblocks ?_
  rintro ⟨key, b⟩
  have hkey := h.slot key
  rw [List.mem_map, List.mem_filter, Grid.mem_toList_blocks]
  constructor
  · rintro ⟨⟨key', cells⟩, hcells, he⟩
    obtain ⟨rfl, rfl⟩ := Prod.mk.inj he
    rw [Std.TreeMap.mem_toList_iff_getElem?_eq_some.mp hcells] at hkey
    generalize s.tiles[key']? = tile?, g.block? key' = b? at hkey ⊢
    cases hkey with
    | leaf cells => exact ⟨rfl, rfl⟩
  · rintro ⟨hb, hleaf⟩
    rw [hb] at hkey
    cases b with
    | tile state => cases hleaf
    | leaf cells =>
      refine ⟨(key, cells), ?_, rfl⟩
      rw [Std.TreeMap.mem_toList_iff_getElem?_eq_some]
      generalize s.leaves[key]? = leaf?, s.tiles[key]? = tile? at hkey ⊢
      cases hkey with
      | leaf cells => rfl

section Tiles

variable [BEq V]

theorem putTile (h : s.Stores g) (key : Coord) (state : Voxel V) :
    (s.putTile key state).Stores (g.putTile key state) := by
  have hbackground : (s.putTile key state).background = (g.putTile key state).background :=
    h.background_eq.trans (congrArg Voxel.value (g.unset_putTile key state)).symm
  refine h.of_slot_at key hbackground ?_ fun other he => ?_
  · rw [Grid.block?_putTile, if_pos rfl, Grid.isUnset, ← h.unset_eq, TwoMaps.putTile,
      Std.TreeMap.getElem?_erase_self]
    split
    · rw [Std.TreeMap.getElem?_erase_self]
      exact .absent
    · rw [Std.TreeMap.getElem?_insert_self]
      exact .tile state
  · rw [Grid.block?_putTile, if_neg he, TwoMaps.putTile, Std.TreeMap.getElem?_erase,
      if_neg (Coord.compare_ne he)]
    refine ⟨rfl, ?_, rfl⟩
    split
    · rw [Std.TreeMap.getElem?_erase, if_neg (Coord.compare_ne he)]
    · rw [Std.TreeMap.getElem?_insert, if_neg (Coord.compare_ne he)]

theorem fill (h : s.Stores g) (box : Box) (state : Voxel V) :
    (s.fill box state).Stores (g.fill box state) := by
  unfold TwoMaps.fill Grid.fill
  split
  · exact h
  · generalize box.blocks k = keys
    induction keys generalizing s g with
    | nil => exact h
    | cons key keys ih =>
      refine ih ?_
      rw [TwoMaps.fillBlock, Grid.fillBlock_eq]
      split
      · exact h.putTile key state
      · exact h.writeBlock key _

/-- A leaf has no tile beside it, so none is left where it collapses to nothing. -/
theorem collapse (h : s.Stores g) {key : Coord} (hleaf : key ∈ s.leaves) (state : Voxel V) :
    (s.collapse key state).Stores (g.putTile key state) := by
  have hput := h.putTile key state
  refine of_slot hput.background_eq fun other => ?_
  have htiles : (s.collapse key state).tiles[other]? = (s.putTile key state).tiles[other]? := by
    rw [TwoMaps.collapse, TwoMaps.putTile]
    split
    · rw [Std.TreeMap.getElem?_erase]
      split
      · next he =>
        rw [← Std.LawfulEqOrd.eq_of_compare he]
        exact h.getElem?_tiles hleaf
      · rfl
    · rfl
  rw [htiles]
  exact hput.slot other

variable {K : Type} [Scalar K] [VoxelValue K V]

/-- The leaves that collapse are found among the leaves alone. -/
theorem filterMap_leaves (h : s.Stores g) (tolerance : K) :
    (s.leaves.toList.filterMap fun p => (Grid.collapsed? tolerance p.2.toList).map (p.1, ·)) =
      g.collapsible tolerance := by
  have htiles : g.collapsible tolerance = (g.blocks.toList.filter fun p => p.2.isLeaf).filterMap
      fun p => (Grid.blockCollapse? tolerance p.2).map (p.1, ·) := by
    rw [List.filterMap_filter]
    refine List.filterMap_congr fun p _ => ?_
    obtain ⟨key, b⟩ := p
    cases b with
    | tile state => rfl
    | leaf cells => rfl
  rw [htiles, ← h.map_toList_leaves, List.filterMap_map]
  rfl

theorem pruneLeaves (h : s.Stores g) (tolerance : K)
    {leaves : List (Coord × Vector (Voxel V) (blockSize k))}
    (hnodup : (leaves.map Prod.fst).Nodup) (hleaves : ∀ p ∈ leaves, p.1 ∈ s.leaves) :
    (leaves.foldl (pruneLeaf tolerance) s).Stores
      ((leaves.filterMap fun p => (Grid.collapsed? tolerance p.2.toList).map (p.1, ·)).foldl
        (fun g p => g.putTile p.1 p.2) g) := by
  induction leaves generalizing s g with
  | nil => exact h
  | cons p leaves ih =>
    obtain ⟨hnot, hnodup⟩ := List.nodup_cons.mp hnodup
    have hrest : ∀ q ∈ leaves, q.1 ∈ s.leaves := fun q hq =>
      hleaves q (List.mem_cons_of_mem p hq)
    rw [List.foldl_cons, List.filterMap_cons, pruneLeaf]
    cases Grid.collapsed? tolerance p.2.toList with
    | none => exact ih h hnodup hrest
    | some state =>
      refine ih (h.collapse (hleaves p List.mem_cons_self) state) hnodup fun q hq => ?_
      have hne : q.1 ≠ p.1 := fun he => hnot (List.mem_map.mpr ⟨q, hq, he⟩)
      exact Std.TreeMap.mem_erase.mpr ⟨Coord.compare_ne hne, hrest q hq⟩

theorem prune (h : s.Stores g) (tolerance : K) :
    (s.prune tolerance).Stores (g.prune tolerance).1 := by
  have hpruned := h.pruneLeaves tolerance (Grid.nodup_keys_toList s.leaves) fun p hp =>
    Std.TreeMap.mem_iff_isSome_getElem?.mpr (Option.isSome_iff_exists.mpr
      ⟨p.2, Std.TreeMap.mem_toList_iff_getElem?_eq_some.mp hp⟩)
  rw [h.filterMap_leaves] at hpruned
  exact hpruned

end Tiles

end Stores

end TwoMaps

end SparseVoxel

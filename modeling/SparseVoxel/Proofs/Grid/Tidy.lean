import Mathlib.Algebra.Group.Nat.Defs
import SparseVoxel.Proofs.Grid.Prune

/-!
# Stores without redundancy

A store is tidy when no block is both a leaf and a tile, every leaf has as many cells as its block
has voxels, and no tile says what absence says (`Tidy`). Only the last depends on how the store
came about, as a store has one map of blocks; where leaves and tiles have a map each, the steps of
every operation keep these apart (`TwoMaps.Stores`). Writing turns blocks into leaves
(`Tidy.alterBlock`), and tiles are stored by `putTile` alone (`Tidy.putTile`), so every operation
keeps a store tidy.
-/

namespace SparseVoxel.Grid

variable {V : Type} {k : Nat}

variable [BEq V]

/-- A store without redundancy. -/
structure Tidy (g : Grid V k) : Prop where
  /-- No key is both that of a leaf and that of a tile. -/
  disjoint : g.leafKeys.Disjoint g.tileKeys
  leaf_length : ∀ key cells, g.block? key = some (.leaf cells) →
    cells.toList.length = Box.edge k ^ 3
  tile_set : ∀ key state, g.block? key = some (.tile state) → g.isUnset state = false

namespace Tidy

variable {g : Grid V k}

theorem of_tile_set
    (h : ∀ key state, g.block? key = some (.tile state) → g.isUnset state = false) : g.Tidy where
  disjoint := disjoint_leafKeys_tileKeys g
  leaf_length _ cells _ := by
    rw [Vector.length_toList]
    show Box.edge k * Box.edge k * Box.edge k = _
    rw [Nat.pow_succ, Nat.pow_two]
  tile_set := h

theorem empty (background : V) : (Grid.empty background : Grid V k).Tidy :=
  of_tile_set fun key state h => by simp [block?, Grid.empty] at h

theorem clear (g : Grid V k) : g.clear.Tidy :=
  empty g.background

theorem alterBlock (h : g.Tidy) (key : Coord) {f : Block V k → Block V k}
    (hf : ∀ b, (f b).isLeaf = true) : (g.alterBlock key f).Tidy := by
  refine of_tile_set fun other state hstate => ?_
  rw [block?_alterBlock] at hstate
  split at hstate
  · have hleaf := hf (g.blockAt key)
    rw [Option.some.inj hstate] at hleaf
    cases hleaf
  · exact h.tile_set other state hstate

theorem putTile (h : g.Tidy) (key : Coord) (state : Voxel V) : (g.putTile key state).Tidy := by
  refine of_tile_set fun other state' hstate => ?_
  rw [isUnset, unset_putTile, ← isUnset]
  rw [block?_putTile] at hstate
  split at hstate
  · split at hstate
    · cases hstate
    · next hset =>
      cases hstate
      exact Bool.eq_false_iff.mpr hset
  · exact h.tile_set other state' hstate

theorem writeAll (h : g.Tidy) (writes : List (Coord × Voxel V)) : (g.writeAll writes).Tidy := by
  rw [Grid.writeAll, Std.TreeMap.foldl_eq_foldl_toList]
  exact List.foldlRecOn _ _ h fun g hg group _ => hg.alterBlock group.1 fun _ => rfl

theorem fill (h : g.Tidy) (box : Box) (state : Voxel V) : (g.fill box state).Tidy := by
  unfold Grid.fill
  split
  · exact h
  · refine List.foldlRecOn _ _ h fun g hg key _ => ?_
    rw [fillBlock_eq]
    split
    · exact hg.putTile key state
    · exact hg.alterBlock key fun _ => rfl

theorem prune {K : Type} [Scalar K] [VoxelValue K V] (h : g.Tidy) (tolerance : K) :
    (g.prune tolerance).1.Tidy :=
  List.foldlRecOn _ _ h fun _ hg p _ => hg.putTile p.1 p.2

end Tidy

end SparseVoxel.Grid

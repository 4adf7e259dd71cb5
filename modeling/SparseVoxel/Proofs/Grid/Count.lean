import Mathlib.Data.List.FinRange
import SparseVoxel.Grid.Active
import SparseVoxel.Proofs.Grid.Prune

/-!
# Counting active voxels

The list of active voxels has every active voxel once, with its value (`mem_activeVoxels`,
`nodup_activeVoxels`), and its length is the count (`activeCount_eq_length`). A tile counts as many
voxels as its block has, and the cells of a leaf are its voxels in another order (`map_read_perm`).
Grids whose active voxels correspond therefore have equal counts (`activeCount_eq_of_image`).
-/

namespace SparseVoxel

variable {V : Type} {k : Nat}

/-! ## Blocks -/

namespace Block

theorem cellIndices_perm (k : Nat) (key : Coord) :
    ((Box.ofBlock k key).coords.map (cellIndex k)).Perm (List.finRange (blockSize k)) := by
  have hnodup : ((Box.ofBlock k key).coords.map (cellIndex k)).Nodup := by
    refine List.Nodup.map_on (fun c hc d hd h => ?_) (Box.nodup_coords _)
    have hkey : Box.blockKey k c = Box.blockKey k d :=
      (Box.mem_ofBlock.mp (Box.mem_coords.mp hc)).trans
        (Box.mem_ofBlock.mp (Box.mem_coords.mp hd)).symm
    exact eq_of_cellIndex hkey h
  refine (List.perm_ext_iff_of_nodup hnodup (List.nodup_finRange _)).mpr fun i => ?_
  have hmem : i ∈ (Box.ofBlock k key).coords.map (cellIndex k) := by
    obtain ⟨d, hd, hindex⟩ := exists_cellIndex k key i.isLt
    exact List.mem_map.mpr ⟨d, Box.mem_coords.mpr (Box.mem_ofBlock.mpr hd), Fin.ext hindex⟩
  exact iff_of_true hmem (List.mem_finRange i)

/-- The cells of a leaf are what is read at the voxels of its block, in another order. -/
theorem map_read_perm (cells : Vector (Voxel V) (blockSize k)) (key : Coord) :
    ((Box.ofBlock k key).coords.map (Block.leaf cells).read).Perm cells.toList := by
  have hcells : (List.finRange (blockSize k)).map (fun i => cells[i]) = cells.toList := by
    apply List.ext_getElem
    · simp
    · intro i hi hi'
      simp
  rw [← hcells]
  have hmap := (cellIndices_perm k key).map fun i => cells[i]
  rwa [List.map_map] at hmap

theorem length_ofBlock_coords (k : Nat) (key : Coord) :
    (Box.ofBlock k key).coords.length = blockSize k := by
  have hlength := (cellIndices_perm k key).length_eq
  rwa [List.length_map, List.length_finRange] at hlength

theorem mem_actives {b : Block V k} {key c : Coord} {v : V} :
    (c, v) ∈ b.actives key ↔ Box.blockKey k c = key ∧ b.read c = ⟨v, true⟩ := by
  unfold actives
  rw [List.mem_filterMap]
  constructor
  · rintro ⟨d, hd, h⟩
    have hkey := Box.mem_ofBlock.mp (Box.mem_coords.mp hd)
    simp only at h
    split at h
    · next hactive =>
      cases h
      exact ⟨hkey, by rw [← hactive]⟩
    · cases h
  · rintro ⟨hkey, hread⟩
    refine ⟨c, Box.mem_coords.mpr (Box.mem_ofBlock.mpr hkey), ?_⟩
    simp only [hread, if_true]

theorem length_actives (b : Block V k) (key : Coord) :
    (b.actives key).length = b.activeCount := by
  have hcount : (b.actives key).length =
      ((Box.ofBlock k key).coords.map b.read).countP (·.active) := by
    rw [actives, List.length_filterMap_eq_countP, List.countP_map]
    refine List.countP_congr fun c _ => ?_
    simp only [Function.comp]
    cases (b.read c).active <;> simp
  rw [hcount]
  cases b with
  | leaf cells => exact (map_read_perm cells key).countP_eq _
  | tile state =>
    show _ = if state.active then blockSize k else 0
    rw [List.countP_map]
    cases hactive : state.active with
    | true =>
      rw [if_pos rfl, ← length_ofBlock_coords k key]
      exact List.countP_eq_length.mpr fun c _ => hactive
    | false =>
      rw [if_neg Bool.false_ne_true]
      exact List.countP_eq_zero.mpr fun c _ => by simp [Function.comp, read, hactive]

theorem nodup_actives (b : Block V k) (key : Coord) : (b.actives key).Nodup := by
  refine (Box.nodup_coords _).filterMap ?_
  intro c d p hc hd
  simp only [Option.mem_def] at hc hd
  split at hc <;> split at hd <;> cases hc <;> cases hd
  rfl

end Block

/-! ## Grids -/

namespace Grid

theorem mem_activeVoxels {g : Grid V k} {c : Coord} {v : V} :
    (c, v) ∈ g.activeVoxels ↔ g.read c = ⟨v, true⟩ := by
  unfold activeVoxels
  rw [List.mem_flatMap]
  constructor
  · rintro ⟨⟨key, b⟩, hb, h⟩
    obtain ⟨hkey, hread⟩ := Block.mem_actives.mp h
    rw [read_of_block? (mem_toList_blocks.mp hb) hkey, hread]
  · intro h
    have hstored : (g.block? (Box.blockKey k c)).isSome = true := by
      by_contra hnot
      rw [read_of_not_stored (Bool.eq_false_iff.mpr hnot)] at h
      cases h
    obtain ⟨b, hb⟩ := Option.isSome_iff_exists.mp hstored
    refine ⟨(Box.blockKey k c, b), mem_toList_blocks.mpr hb, Block.mem_actives.mpr ⟨rfl, ?_⟩⟩
    rw [← read_of_block? hb rfl, h]

theorem nodup_activeVoxels (g : Grid V k) : g.activeVoxels.Nodup := by
  unfold activeVoxels
  refine List.nodup_flatMap.mpr ⟨fun p _ => Block.nodup_actives p.2 p.1, ?_⟩
  refine (List.pairwise_map.mp (nodup_keys_toList g.blocks)).imp ?_
  intro p q hne p' hp hq
  exact hne ((Block.mem_actives.mp hp).1.symm.trans (Block.mem_actives.mp hq).1)

theorem activeCount_eq_length (g : Grid V k) : g.activeCount = g.activeVoxels.length := by
  rw [activeCount, activeVoxels, List.length_flatMap, List.sum_eq_foldr, List.foldr_map]
  simp only [Block.length_actives]

/-- Where every voxel is moved, or is inactive before and after, the active voxels are the images of
those before. -/
theorem read_active_iff_of_moved {m : Nat} {g : Grid V k} {h : Grid V m} {f : Coord → Coord}
    (hf : Function.Bijective f)
    (hmoved : ∀ x, h.read (f x) = g.read x ∨
      (g.read x).active = false ∧ (h.read (f x)).active = false) (y : Coord) (v : V) :
    h.read y = ⟨v, true⟩ ↔ ∃ x, g.read x = ⟨v, true⟩ ∧ f x = y := by
  constructor
  · intro hy
    obtain ⟨x, rfl⟩ := hf.surjective y
    rcases hmoved x with hx | ⟨-, hoff⟩
    · exact ⟨x, hx.symm.trans hy, rfl⟩
    · rw [hy] at hoff
      cases hoff
  · rintro ⟨x, hx, rfl⟩
    rcases hmoved x with hmoved | ⟨hoff, -⟩
    · exact hmoved.trans hx
    · rw [hx] at hoff
      cases hoff

/-- Grids whose active voxels correspond under a map without collisions have as many of them. -/
theorem activeCount_eq_of_image {m : Nat} {g : Grid V k} {h : Grid V m} {f : Coord → Coord}
    (hf : Function.Injective f)
    (himage : ∀ y v, h.read y = ⟨v, true⟩ ↔ ∃ x, g.read x = ⟨v, true⟩ ∧ f x = y) :
    h.activeCount = g.activeCount := by
  have hinjective : Function.Injective fun p : Coord × V => (f p.1, p.2) := by
    intro p q hpq
    have hpq := Prod.mk.inj hpq
    exact Prod.ext (hf hpq.1) hpq.2
  have hperm : h.activeVoxels.Perm (g.activeVoxels.map fun p => (f p.1, p.2)) := by
    refine (List.perm_ext_iff_of_nodup (nodup_activeVoxels h)
      ((nodup_activeVoxels g).map hinjective)).mpr ?_
    rintro ⟨y, v⟩
    rw [mem_activeVoxels, himage, List.mem_map]
    constructor
    · rintro ⟨x, hx, rfl⟩
      exact ⟨(x, v), mem_activeVoxels.mpr hx, rfl⟩
    · rintro ⟨⟨x, w⟩, hx, he⟩
      cases he
      exact ⟨x, mem_activeVoxels.mp hx, rfl⟩
  rw [activeCount_eq_length, activeCount_eq_length, hperm.length_eq, List.length_map]

end Grid

end SparseVoxel

import SparseVoxel.Grid.Active
import SparseVoxel.Grid.Checked
import SparseVoxel.Proofs.Grid.Blocks
import SparseVoxel.Value.Transfer

/-!
# What filling a box stores

Blocks have three ways to lie to a box. `Filled` says what is stored for each after the box has been
filled: a block inside it is one tile, or nothing where the tile would only say what absence says,
whatever was stored before; a block that is covered in part is a leaf; and a block that the box does
not meet is stored as it was.

Filling is carried out exactly if the value can be converted and there is room for the leaves
(`fill?_eq_ok_iff`), and then the box is filled in this sense (`fill?_stores`).
-/

namespace SparseVoxel.Grid

variable {V : Type} {k : Nat} {g g' : Grid V k} {key : Coord}

/-! ## The tiles of a block -/

theorem ofBlock_injective (k : Nat) : Function.Injective (Box.ofBlock k) := fun key key' h => by
  rw [← Box.blockKey_lo k key, h, Box.blockKey_lo]

theorem mem_tiles {box : Box} {state : Voxel V} :
    (box, state) ∈ g.tiles ↔
      ∃ key, g.block? key = some (.tile state) ∧ Box.ofBlock k key = box := by
  unfold tiles
  rw [List.mem_filterMap]
  constructor
  · rintro ⟨⟨key, b⟩, hb, h⟩
    cases b with
    | leaf cells => cases h
    | tile state =>
      cases h
      exact ⟨key, mem_toList_blocks.mp hb, rfl⟩
  · rintro ⟨key, hb, rfl⟩
    exact ⟨(key, .tile state), mem_toList_blocks.mpr hb, rfl⟩

theorem nodup_tiles (g : Grid V k) : g.tiles.Nodup := by
  refine (List.Nodup.of_map _ (nodup_keys_toList g.blocks)).filterMap ?_
  rintro ⟨key, b⟩ ⟨key', b'⟩ p h h'
  cases b with
  | leaf cells => cases h
  | tile state =>
    cases b' with
    | leaf cells => cases h'
    | tile state' =>
      cases h
      obtain ⟨hbox, rfl⟩ := Prod.mk.inj (Option.some.inj h')
      rw [ofBlock_injective k hbox]

/-- The tiles that are listed for the block under a key. -/
def tilesOf (g : Grid V k) (key : Coord) : List (Box × Voxel V) :=
  g.tiles.filter fun p => p.1 = Box.ofBlock k key

/-- A tile is listed once. -/
theorem tilesOf_of_tile {state : Voxel V} (h : g.block? key = some (.tile state)) :
    g.tilesOf key = [(Box.ofBlock k key, state)] := by
  refine List.perm_singleton.mp ((List.perm_ext_iff_of_nodup ((nodup_tiles g).filter _)
    (List.nodup_singleton _)).mpr fun p => ?_)
  rw [List.mem_filter, decide_eq_true_eq, List.mem_singleton]
  constructor
  · rintro ⟨hp, hbox⟩
    obtain ⟨key', hkey', hbox'⟩ := mem_tiles.mp hp
    rw [ofBlock_injective k (hbox'.trans hbox), h] at hkey'
    cases hkey'
    exact Prod.ext hbox rfl
  · rintro rfl
    exact ⟨mem_tiles.mpr ⟨key, h, rfl⟩, rfl⟩

theorem tilesOf_of_not_tile (h : ∀ state, g.block? key ≠ some (.tile state)) :
    g.tilesOf key = [] := by
  refine List.filter_eq_nil_iff.mpr fun p hp hbox => ?_
  obtain ⟨key', hkey', hbox'⟩ := mem_tiles.mp hp
  rw [ofBlock_injective k (hbox'.trans (of_decide_eq_true hbox))] at hkey'
  exact h _ hkey'

theorem tilesOf_of_none (h : g.block? key = none) : g.tilesOf key = [] := by
  refine tilesOf_of_not_tile fun state hstate => ?_
  rw [h] at hstate
  cases hstate

theorem tilesOf_of_leaf {cells : Vector (Voxel V) (blockSize k)}
    (h : g.block? key = some (.leaf cells)) : g.tilesOf key = [] := by
  refine tilesOf_of_not_tile fun state hstate => ?_
  rw [h] at hstate
  cases hstate

/-- What is listed for a block depends on how it is stored. -/
theorem tilesOf_congr (h : g'.block? key = g.block? key) : g'.tilesOf key = g.tilesOf key := by
  by_cases htile : ∃ state, g.block? key = some (.tile state)
  · obtain ⟨state, hstate⟩ := htile
    rw [tilesOf_of_tile hstate, tilesOf_of_tile (h.trans hstate)]
  · have hnot : ∀ state, g.block? key ≠ some (.tile state) := fun state hstate =>
      htile ⟨state, hstate⟩
    rw [tilesOf_of_not_tile hnot, tilesOf_of_not_tile (h ▸ hnot)]

/-! ## When filling is carried out -/

section Carried

variable [BEq V] [Sized V] {machine : Machine} {box : Box} {state : Voxel V}

/-- A block can be filled: it lies in the box, or it is a leaf already, or there is room for one. -/
def CanFill (machine : Machine) (box : Box) (g : Grid V k) (key : Coord) : Prop :=
  (∀ c, Box.blockKey k c = key → c ∈ box) ∨ (g.block? key).any Block.isLeaf = true ∨
    machine.reserve? (.replicate (Box.edge k)) (Sized.bytes V) = .ok ()

theorem fillBlock?_eq_ok_iff : fillBlock? machine box state key g = .ok () g' ↔
    CanFill machine box g key ∧ g' = fillBlock box state g key := by
  unfold fillBlock? CanFill
  rw [← Box.containsBox_ofBlock_iff]
  split
  · next hinside =>
    constructor
    · intro h
      cases h
      exact ⟨Or.inl hinside, rfl⟩
    · rintro ⟨-, rfl⟩
      rfl
  · next hinside =>
    rw [Attempt.bind_eq_ok]
    constructor
    · rintro ⟨_, g₁, hroom, h⟩
      obtain ⟨rfl, hroom⟩ := makeRoom?_eq_ok_iff.mp hroom
      cases h
      exact ⟨Or.inr hroom, rfl⟩
    · rintro ⟨hcan, rfl⟩
      exact ⟨(), g, makeRoom?_eq_ok_iff.mpr ⟨rfl, hcan.resolve_left hinside⟩, rfl⟩

/-- Distinct blocks are filled exactly if each of them can be. -/
theorem each_fillBlock?_eq_ok_iff {keys : List Coord} (hnodup : keys.Nodup) :
    Attempt.each (fillBlock? machine box state) keys g = .ok () g' ↔
      (∀ key ∈ keys, CanFill machine box g key) ∧ g' = keys.foldl (fillBlock box state) g := by
  induction keys generalizing g with
  | nil =>
    constructor
    · intro h
      cases h
      exact ⟨nofun, rfl⟩
    · rintro ⟨-, rfl⟩
      rfl
  | cons key keys ih =>
    obtain ⟨hnot, hnodup⟩ := List.nodup_cons.mp hnodup
    -- filling the first block does not touch the others
    have hrest : (∀ other ∈ keys, CanFill machine box (fillBlock box state g key) other) ↔
        ∀ other ∈ keys, CanFill machine box g other := by
      refine forall₂_congr fun other hother => ?_
      have hne : other ≠ key := fun he => hnot (he ▸ hother)
      rw [CanFill, CanFill, block?_fillBlock_of_ne g hne]
    rw [Attempt.each, Attempt.bind_eq_ok, List.forall_mem_cons, List.foldl_cons, ← hrest]
    constructor
    · rintro ⟨_, g₁, hfirst, h⟩
      obtain ⟨hcan, rfl⟩ := fillBlock?_eq_ok_iff.mp hfirst
      obtain ⟨hothers, rfl⟩ := (ih hnodup).mp h
      exact ⟨⟨hcan, hothers⟩, rfl⟩
    · rintro ⟨⟨hcan, hothers⟩, rfl⟩
      exact ⟨(), _, fillBlock?_eq_ok_iff.mpr ⟨hcan, rfl⟩, (ih hnodup).mpr ⟨hothers, rfl⟩⟩

theorem fill?_eq_ok_iff (hbox : box.Nonempty) {value : Except Fault V} {on : Bool} :
    fill? machine box value on g = .ok () g' ↔
      ∃ v, value = .ok v ∧ (∀ key ∈ box.blocks k, CanFill machine box g key) ∧
        g' = g.fill box ⟨v, on⟩ := by
  have hempty : ¬box.isEmpty = true := by
    rw [Box.isEmpty_eq_false.mpr hbox]
    exact Bool.false_ne_true
  unfold fill? fill fillWith?
  rw [if_neg hempty, Attempt.check_bind_eq_ok]
  simp only [if_neg hempty, each_fillBlock?_eq_ok_iff (Box.nodup_blocks box k)]

end Carried

/-! ## What is stored -/

variable [BEq V]

theorem isUnset_iff {state : Voxel V} :
    g.isUnset state = true ↔ (state.value == g.background) = true ∧ state.active = false := by
  show (state.value == g.background && state.active == false) = true ↔ _
  rw [Bool.and_eq_true, beq_iff_eq (a := state.active)]

/-- What is stored after a box has been filled with a state. -/
structure Filled (box : Box) (state : Voxel V) (g g' : Grid V k) : Prop where
  background_eq : g'.background = g.background
  /-- A block inside the box is one tile. -/
  tile_of_inside : ∀ key, (∀ c, Box.blockKey k c = key → c ∈ box) →
    ¬((state.value == g.background) = true ∧ state.active = false) →
    g'.block? key = some (.tile state) ∧ g'.tilesOf key = [(Box.ofBlock k key, state)]
  /-- A tile that would read as an absent block is not stored. -/
  none_of_inside : ∀ key, (∀ c, Box.blockKey k c = key → c ∈ box) →
    (state.value == g.background) = true → state.active = false →
    g'.block? key = none ∧ g'.tilesOf key = []
  /-- A block that the box covers in part is a leaf with that part filled. -/
  leaf_of_partly : ∀ key, (∃ c, Box.blockKey k c = key ∧ c ∈ box) →
    (∃ c, Box.blockKey k c = key ∧ c ∉ box) →
    (∃ cells, g'.block? key = some (.leaf cells)) ∧ g'.tilesOf key = [] ∧
      ∀ c, Box.blockKey k c = key → g'.read c = if c ∈ box then state else g.read c
  /-- A block that the box does not meet is stored as it was. -/
  block?_of_apart : ∀ key, (∀ c, Box.blockKey k c = key → c ∉ box) →
    g'.block? key = g.block? key ∧ g'.tilesOf key = g.tilesOf key

/-- What a block that the box covers in part stores. -/
theorem block?_fill_of_partly (g : Grid V k) {box : Box} (state : Voxel V) {c d : Coord}
    (hc : Box.blockKey k c = key) (hmem : c ∈ box) (hd : Box.blockKey k d = key)
    (hnot : d ∉ box) :
    (g.fill box state).block? key =
      some ((g.blockAt key).writeAll ((box.inBlock k key).coords.map (·, state))) := by
  have hinside : ¬box.containsBox (Box.ofBlock k key) = true := fun h =>
    hnot (Box.containsBox_ofBlock_iff.mp h d hd)
  have hwrite : (c, state) ∈ (box.inBlock k key).coords.map (·, state) :=
    List.mem_map_of_mem (Box.mem_coords_inBlock.mpr ⟨hmem, hc⟩)
  rw [block?_fill, storeFill, if_neg hinside, storeWrites, if_neg (List.ne_nil_of_mem hwrite)]
  rfl

theorem filled_fill (g : Grid V k) (box : Box) (state : Voxel V) :
    Filled box state g (g.fill box state) where
  background_eq := congrArg Voxel.value (unset_fill g box state)
  tile_of_inside key hinside hset := by
    have hblock : (g.fill box state).block? key = some (.tile state) := by
      rw [block?_fill, storeFill, if_pos (Box.containsBox_ofBlock_iff.mpr hinside)]
      exact if_neg fun hunset => hset (isUnset_iff.mp hunset)
    exact ⟨hblock, tilesOf_of_tile hblock⟩
  none_of_inside key hinside hvalue hoff := by
    have hblock : (g.fill box state).block? key = none := by
      rw [block?_fill, storeFill, if_pos (Box.containsBox_ofBlock_iff.mpr hinside)]
      exact if_pos (isUnset_iff.mpr ⟨hvalue, hoff⟩)
    exact ⟨hblock, tilesOf_of_none hblock⟩
  leaf_of_partly key := by
    rintro ⟨c, hc, hmem⟩ ⟨d, hd, hnot⟩
    have hblock := block?_fill_of_partly g state hc hmem hd hnot
    refine ⟨⟨_, hblock⟩, tilesOf_of_leaf hblock, fun x hx => ?_⟩
    rw [read_of_block? hblock hx, Block.read_writeAll, overwrite_const]
    · simp only [Box.mem_coords_inBlock, hx, and_true, read]
    · intro w hw
      obtain ⟨y, hy, rfl⟩ := List.mem_map.mp hw
      exact (Box.mem_coords_inBlock.mp hy).2.trans hx.symm
  block?_of_apart key hapart := by
    have hblock : (g.fill box state).block? key = g.block? key := by
      rw [block?_fill, storeFill_of_not_meets fun c hc hkey => hapart c hkey hc]
    exact ⟨hblock, tilesOf_congr hblock⟩

/-! ## The main statement -/

/-- **What filling a box stores.** A box that is not empty is filled exactly if the value can be
converted and each block that the box covers in part is a leaf or there is room for one. Then a
block inside the box is one tile, or nothing where the tile would read as an absent block does; a
block that the box covers in part is a leaf; and the others are stored as they were. -/
theorem fill?_stores {t : ValueKind} {box : Box} (hbox : box.Nonempty) (machine : Machine)
    (g : Grid t.Value k) (value : Nested Number) (on : Bool) :
    ((∃ g', fill? machine box (t.cast? value) on g = .ok () g') ↔
      (∃ v, t.cast? value = .ok v) ∧ ∀ key ∈ box.blocks k, CanFill machine box g key) ∧
    ∀ v g', t.cast? value = .ok v → fill? machine box (t.cast? value) on g = .ok () g' →
      Filled box ⟨v, on⟩ g g' := by
  constructor
  · constructor
    · rintro ⟨g', h⟩
      obtain ⟨v, hv, hcan, -⟩ := (fill?_eq_ok_iff hbox).mp h
      exact ⟨⟨v, hv⟩, hcan⟩
    · rintro ⟨⟨v, hv⟩, hcan⟩
      exact ⟨_, (fill?_eq_ok_iff hbox).mpr ⟨v, hv, hcan, rfl⟩⟩
  · intro v g' hv h
    obtain ⟨v', hv', -, rfl⟩ := (fill?_eq_ok_iff hbox).mp h
    cases hv.symm.trans hv'
    exact filled_fill g box ⟨v, on⟩

/-- A box over a leaf and half of a tile, with another tile beside it, on the machine of words. -/
theorem fill?_stores_over_leaf_and_tile :
    let g : Grid ValueKind.int32.Value 1 := ((Grid.empty (0 : Int32)).fill ⟨⟨-2, 0, 0⟩, ⟨3, 1, 1⟩⟩
      ⟨(5 : Int32), true⟩).write ⟨0, 1, 0⟩ ⟨(3 : Int32), true⟩
    let box : Box := ⟨⟨0, 0, 0⟩, ⟨2, 1, 1⟩⟩
    box.Nonempty ∧ (∃ cells, g.block? ⟨0, 0, 0⟩ = some (.leaf cells)) ∧
      ∃ g', fill? .words box (ValueKind.int32.cast? (.leaf (.int 7))) true g = .ok () g' ∧
        g'.block? ⟨0, 0, 0⟩ = some (.tile ⟨(7 : Int32), true⟩) ∧
        (∃ cells, g'.block? ⟨1, 0, 0⟩ = some (.leaf cells)) ∧
        g'.block? ⟨-1, 0, 0⟩ = g.block? ⟨-1, 0, 0⟩ := by
  intro g box
  have hbox : box.Nonempty := by decide
  obtain ⟨hcarried, hstored⟩ := fill?_stores (t := .int32) hbox .words g (.leaf (.int 7)) true
  obtain ⟨g', hfill⟩ := hcarried.mpr ⟨⟨(7 : Int32), rfl⟩, fun key _ => Or.inr (Or.inr rfl)⟩
  have hfilled := hstored (7 : Int32) g' rfl hfill
  have hinside : ∀ c, Box.blockKey 1 c = ⟨0, 0, 0⟩ → c ∈ box :=
    Box.containsBox_ofBlock_iff.mp (by decide)
  have hapart : ∀ c, Box.blockKey 1 c = ⟨-1, 0, 0⟩ → c ∉ box := fun c hkey hc =>
    absurd (hkey ▸ Box.blockKey_mem_blocks hc : ⟨-1, 0, 0⟩ ∈ box.blocks 1) (by decide)
  exact ⟨hbox, ⟨_, rfl⟩, g', hfill, (hfilled.tile_of_inside _ hinside (by decide)).1,
    (hfilled.leaf_of_partly ⟨1, 0, 0⟩ ⟨⟨2, 0, 0⟩, rfl, by decide⟩ ⟨⟨3, 0, 0⟩, rfl, by decide⟩).1,
    (hfilled.block?_of_apart _ hapart).1⟩

end SparseVoxel.Grid

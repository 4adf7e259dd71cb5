import SparseVoxel.Proofs.Grid.Writes

/-!
# What bulk writing stores

Reads do not tell how a voxel is stored. `block?_writeAll` and `block?_fill` say what is stored
under each key after many voxels have been written and after a box has been filled: the writes to a
block leave a leaf there, a block inside a filled box becomes a tile or absent, and what no write
meets stays as it was stored. Writes to different voxels of one block may be exchanged
(`storeWrites_comm`), also where the first of them turns the block into a leaf.
-/

namespace SparseVoxel

namespace Block

variable {V : Type} {k : Nat}

/-- A voxel may be written before or after other voxels of its block. -/
theorem foldl_set_comm {writes : List (Coord × Voxel V)} {c : Coord} {state : Voxel V}
    (h : ∀ w ∈ writes, cellIndex k c ≠ cellIndex k w.1)
    (cells : Vector (Voxel V) (blockSize k)) :
    writes.foldl (fun cells w => cells.set (cellIndex k w.1) w.2 (cellIndex k w.1).isLt)
        (cells.set (cellIndex k c) state (cellIndex k c).isLt) =
      (writes.foldl (fun cells w => cells.set (cellIndex k w.1) w.2 (cellIndex k w.1).isLt)
        cells).set (cellIndex k c) state (cellIndex k c).isLt := by
  induction writes generalizing cells with
  | nil => rfl
  | cons w writes ih =>
    have hne : (cellIndex k c).val ≠ (cellIndex k w.1).val :=
      Fin.val_ne_of_ne (h w List.mem_cons_self)
    rw [List.foldl_cons, List.foldl_cons, Vector.set_comm _ _ hne]
    exact ih (fun v hv => h v (List.mem_cons_of_mem w hv)) _

/-- Writes to different voxels of a block may be exchanged. -/
theorem writeAll_comm {key : Coord} {ws ws' : List (Coord × Voxel V)}
    (hkey : ∀ w ∈ ws, Box.blockKey k w.1 = key) (hkey' : ∀ w ∈ ws', Box.blockKey k w.1 = key)
    (hne : ∀ w ∈ ws, ∀ w' ∈ ws', w.1 ≠ w'.1) (b : Block V k) :
    (b.writeAll ws).writeAll ws' = (b.writeAll ws').writeAll ws := by
  refine congrArg Block.leaf ?_
  show ws'.foldl _ (ws.foldl _ b.cells) = ws.foldl _ (ws'.foldl _ b.cells)
  generalize b.cells = cells
  induction ws generalizing cells with
  | nil => rfl
  | cons w ws ih =>
    have hapart : ∀ w' ∈ ws', cellIndex k w.1 ≠ cellIndex k w'.1 := by
      intro w' hw' he
      have hsame := (hkey w List.mem_cons_self).trans (hkey' w' hw').symm
      exact hne w List.mem_cons_self w' hw' (eq_of_cellIndex hsame he)
    rw [List.foldl_cons, ih (fun v hv => hkey v (List.mem_cons_of_mem w hv))
      (fun v hv => hne v (List.mem_cons_of_mem w hv)), foldl_set_comm hapart, List.foldl_cons]

end Block

namespace Grid

variable {V : Type} {k : Nat}

/-- What is stored under a key after writes to voxels of its block: without a write what was there
before, and otherwise a leaf. -/
def storeWrites (absent : Voxel V) (writes : List (Coord × Voxel V))
    (stored : Option (Block V k)) : Option (Block V k) :=
  if writes = [] then stored else some ((stored.getD (.tile absent)).writeAll writes)

theorem storeWrites_nil (absent : Voxel V) (stored : Option (Block V k)) :
    storeWrites absent [] stored = stored :=
  if_pos rfl

theorem storeWrites_comm {absent : Voxel V} {key : Coord} {ws ws' : List (Coord × Voxel V)}
    (hkey : ∀ w ∈ ws, Box.blockKey k w.1 = key) (hkey' : ∀ w ∈ ws', Box.blockKey k w.1 = key)
    (hne : ∀ w ∈ ws, ∀ w' ∈ ws', w.1 ≠ w'.1) (stored : Option (Block V k)) :
    storeWrites absent ws' (storeWrites absent ws stored) =
      storeWrites absent ws (storeWrites absent ws' stored) := by
  by_cases hws : ws = []
  · rw [hws, storeWrites_nil, storeWrites_nil]
  · by_cases hws' : ws' = []
    · rw [hws', storeWrites_nil, storeWrites_nil]
    · simp only [storeWrites, if_neg hws, if_neg hws', Option.getD_some]
      rw [Block.writeAll_comm hkey hkey' hne]

/-! ## Writing many voxels -/

/-- The writes to a block, in their order. -/
def writesTo (k : Nat) (key : Coord) (writes : List (Coord × Voxel V)) : List (Coord × Voxel V) :=
  writes.filter fun w => Box.blockKey k w.1 == key

theorem mem_writesTo {key : Coord} {writes : List (Coord × Voxel V)} {w : Coord × Voxel V} :
    w ∈ writesTo k key writes ↔ w ∈ writes ∧ Box.blockKey k w.1 = key := by
  rw [writesTo, List.mem_filter, beq_iff_eq]

/-- A block has a group exactly if there is a write to it. -/
theorem getElem?_groupWrites_eq (k : Nat) (writes : List (Coord × Voxel V)) (key : Coord) :
    (groupWrites k writes)[key]? =
      if writesTo k key writes = [] then none else some (writesTo k key writes) := by
  induction writes with
  | nil => simp [groupWrites, writesTo]
  | cons w writes ih =>
    show (Std.TreeMap.alter (groupWrites k writes) _ _)[key]? = _
    rw [Std.TreeMap.getElem?_alter]
    by_cases hkey : Box.blockKey k w.1 = key
    · rw [if_pos (Std.LawfulEqOrd.compare_eq_iff_eq.mpr hkey), hkey, getElem?_groupWrites,
        writesTo, List.filter_cons_of_pos (by simp [hkey]), if_neg (List.cons_ne_nil _ _)]
    · rw [if_neg fun h => hkey (Std.LawfulEqOrd.eq_of_compare h), writesTo,
        List.filter_cons_of_neg (by simp [hkey])]
      exact ih

/-- Writing many voxels stores a leaf under the key of each block that is written to. -/
theorem block?_writeAll (g : Grid V k) (writes : List (Coord × Voxel V)) (key : Coord) :
    (g.writeAll writes).block? key =
      storeWrites g.unset (writesTo k key writes) (g.block? key) := by
  rw [writeAll, Std.TreeMap.foldl_eq_foldl_toList,
    block?_alterAll (nodup_keys_toList (groupWrites k writes)), lookup_toList_eq,
    getElem?_groupWrites_eq, storeWrites]
  by_cases hnil : writesTo k key writes = []
  · rw [if_pos hnil, if_pos hnil]
  · rw [if_neg hnil, if_neg hnil]
    rfl

/-! ## Filling a box -/

variable [BEq V]

/-- What is stored under a key after a box has been filled. -/
def storeFill (absent : Voxel V) (box : Box) (state : Voxel V) (key : Coord)
    (stored : Option (Block V k)) : Option (Block V k) :=
  if box.containsBox (Box.ofBlock k key) = true then
    if (state == absent) = true then none else some (.tile state)
  else storeWrites absent ((box.inBlock k key).coords.map (·, state)) stored

/-- A box does not meet the blocks whose keys are not those of its voxels. -/
theorem storeFill_of_not_meets {box : Box} {key : Coord}
    (h : ∀ c ∈ box, Box.blockKey k c ≠ key) (absent state : Voxel V)
    (stored : Option (Block V k)) : storeFill absent box state key stored = stored := by
  have hblock : ¬ box.containsBox (Box.ofBlock k key) = true := fun hcontains =>
    h _ (Box.containsBox_ofBlock_iff.mp hcontains _ (Box.blockKey_lo k key)) (Box.blockKey_lo k key)
  have hnil : (box.inBlock k key).coords = [] := List.eq_nil_iff_forall_not_mem.mpr fun c hc =>
    h c (Box.mem_coords_inBlock.mp hc).1 (Box.mem_coords_inBlock.mp hc).2
  rw [storeFill, if_neg hblock, hnil]
  exact storeWrites_nil absent stored

theorem block?_fillBlock {box : Box} (hbox : box.Nonempty) (state : Voxel V) (g : Grid V k)
    {key : Coord} (hkey : key ∈ box.blocks k) (other : Coord) :
    (fillBlock box state g key).block? other =
      if other = key then storeFill g.unset box state key (g.block? key) else g.block? other := by
  rw [fillBlock_eq, storeFill]
  split
  · rw [block?_putTile]
    rfl
  · rw [block?_alterBlock]
    obtain ⟨c, hc, rfl⟩ := Box.exists_mem_of_mem_blockRange hbox (Box.mem_blocks.mp hkey)
    have hmem : (c, state) ∈ (box.inBlock k (Box.blockKey k c)).coords.map (·, state) :=
      List.mem_map_of_mem (Box.mem_coords_inBlock.mpr ⟨hc, rfl⟩)
    rw [storeWrites, if_neg (List.ne_nil_of_mem hmem)]
    rfl

theorem block?_fillBlock_of_ne {box : Box} {state : Voxel V} {key other : Coord} (g : Grid V k)
    (hne : key ≠ other) : (fillBlock box state g other).block? key = g.block? key := by
  rw [fillBlock_eq]
  split
  · rw [block?_putTile, if_neg hne]
  · rw [block?_alterBlock, if_neg hne]

/-- Filling a box stores a tile, or nothing, for each block inside the box, and a leaf for each
block that the box meets otherwise. -/
theorem block?_fill (g : Grid V k) (box : Box) (state : Voxel V) (key : Coord) :
    (g.fill box state).block? key = storeFill g.unset box state key (g.block? key) := by
  by_cases hbox : box.Nonempty
  · have hfold : ∀ (keys : List Coord) (g' : Grid V k), keys.Nodup →
        (∀ key ∈ keys, key ∈ box.blocks k) → g'.unset = g.unset →
        (keys.foldl (fillBlock box state) g').block? key =
          if key ∈ keys then storeFill g.unset box state key (g'.block? key)
          else g'.block? key := by
      intro keys
      induction keys with
      | nil => exact fun _ _ _ _ => (if_neg List.not_mem_nil).symm
      | cons other keys ih =>
        intro g' hnodup hkeys hunset
        obtain ⟨hnot, hnodup⟩ := List.nodup_cons.mp hnodup
        rw [List.foldl_cons, ih _ hnodup (fun key hkey => hkeys key (List.mem_cons_of_mem _ hkey))
          ((unset_fillBlock box state g' other).trans hunset),
          block?_fillBlock hbox state g' (hkeys other List.mem_cons_self)]
        by_cases hother : key = other
        · subst hother
          rw [if_neg hnot, if_pos rfl, if_pos List.mem_cons_self, hunset]
        · simp only [List.mem_cons, hother, false_or, if_false]
    rw [fill, Box.isEmpty_eq_false.mpr hbox, if_neg Bool.false_ne_true,
      hfold _ g (Box.nodup_blocks box k) (fun _ h => h) rfl]
    split
    · rfl
    · next hkey =>
      refine (storeFill_of_not_meets (fun c hc he => hkey ?_) g.unset state _).symm
      rw [← he]
      exact Box.blockKey_mem_blocks hc
  · have hempty : box.isEmpty = true := by
      rw [Box.isEmpty, decide_eq_false hbox]
      rfl
    have hnone : ∀ c ∈ box, Box.blockKey k c ≠ key := fun c hc =>
      absurd (Box.nonempty_of_mem hc) hbox
    rw [fill, if_pos hempty, storeFill_of_not_meets hnone]

end Grid

end SparseVoxel

import SparseVoxel.Grid.Prune
import SparseVoxel.Proofs.Grid.Writes
import SparseVoxel.Proofs.Scalar.Tolerance

/-!
# What pruning does to the view of a grid

Every cell of a leaf is that of a voxel of its block (`exists_cellIndex`), so whether a leaf
collapses can be told from what the grid reads in the block (`blockCollapse?_leaf`). `prunedView` is
pruning as an operation on views, and `prune_same` says that pruning a grid comes to it. Without a
tolerance that operation changes no voxel (`prunedView_same`).
-/

namespace SparseVoxel

/-! ## The cells of a leaf -/

theorem exists_cellIndex (k : Nat) (key : Coord) {i : Nat} (hi : i < blockSize k) :
    ∃ d, Box.blockKey k d = key ∧ (cellIndex k d).val = i := by
  have hpos := Box.edge_pos k
  have hx : i / Box.edge k / Box.edge k < Box.edge k := by
    rw [Nat.div_div_eq_div_mul]
    exact Nat.div_lt_of_lt_mul hi
  have hy : i / Box.edge k % Box.edge k < Box.edge k := Nat.mod_lt _ hpos
  have hz : i % Box.edge k < Box.edge k := Nat.mod_lt _ hpos
  refine ⟨⟨key.x * Box.edge k + (i / Box.edge k / Box.edge k : Nat),
    key.y * Box.edge k + (i / Box.edge k % Box.edge k : Nat),
    key.z * Box.edge k + (i % Box.edge k : Nat)⟩, ?_, ?_⟩
  · exact Vec3.ext (Box.blockIndex_mul_add k _ hx) (Box.blockIndex_mul_add k _ hy)
      (Box.blockIndex_mul_add k _ hz)
  · simp only [cellIndex, blockOffset_mul_add k _ hx, blockOffset_mul_add k _ hy,
      blockOffset_mul_add k _ hz]
    rw [Nat.div_add_mod', Nat.div_add_mod']

theorem cellIndex_lo (k : Nat) (key : Coord) : (cellIndex k (Box.ofBlock k key).lo).val = 0 := by
  have haxis : ∀ i : Int, blockOffset k (i * Box.edge k) = 0 := by
    intro i
    have h := blockOffset_mul_add k i (Box.edge_pos k)
    rwa [Int.natCast_zero, Int.add_zero] at h
  simp only [cellIndex, Box.ofBlock, Vec3.map, haxis, Nat.zero_mul, Nat.add_zero]

variable {V : Type} {k : Nat}

theorem mem_cells_iff {cells : Vector (Voxel V) (blockSize k)} (key : Coord) {v : Voxel V} :
    v ∈ cells.toList ↔ ∃ d, Box.blockKey k d = key ∧ (Block.leaf cells).read d = v := by
  rw [List.mem_iff_getElem]
  constructor
  · rintro ⟨i, hi, rfl⟩
    obtain ⟨d, hd, hindex⟩ := exists_cellIndex k key (i := i) (by simpa using hi)
    refine ⟨d, hd, ?_⟩
    simp [Block.read, hindex]
  · rintro ⟨d, -, rfl⟩
    exact ⟨cellIndex k d, by simp, by simp [Block.read]⟩

/-! ## Level blocks -/

variable {K : Type} [Scalar K] [BEq V] [VoxelValue K V]

/-- Whether the voxels of a block agree with that of its least corner, up to a tolerance. -/
def isLevel (k : Nat) (tolerance : K) (view : Coord → Voxel V) (key : Coord) : Bool :=
  let block := Box.ofBlock k key
  block.coords.all fun d => (view d).active == (view block.lo).active &&
    Grid.withinTolerance tolerance (view d).value (view block.lo).value

theorem isLevel_iff {tolerance : K} {view : Coord → Voxel V} {key : Coord} :
    isLevel k tolerance view key = true ↔ ∀ d, Box.blockKey k d = key →
      (view d).active = (view (Box.ofBlock k key).lo).active ∧
        Grid.withinTolerance tolerance (view d).value
          (view (Box.ofBlock k key).lo).value = true := by
  simp only [isLevel, List.all_eq_true, Box.mem_coords, Box.mem_ofBlock, Bool.and_eq_true,
    beq_iff_eq]

/-- Pruning as an operation on views: a level block gets the state of its least corner. -/
def prunedView (k : Nat) (tolerance : K) (view : Coord → Voxel V) (c : Coord) : Voxel V :=
  let key := Box.blockKey k c
  if isLevel k tolerance view key then view (Box.ofBlock k key).lo else view c

namespace Grid

/-- A leaf collapses to the state of the least corner when its block is level. -/
theorem blockCollapse?_leaf (tolerance : K) (cells : Vector (Voxel V) (blockSize k)) (key : Coord) :
    blockCollapse? tolerance (.leaf cells) =
      if isLevel k tolerance (Block.leaf cells).read key then
        some ((Block.leaf cells).read (Box.ofBlock k key).lo)
      else none := by
  have hfirst : cells.toList.head? = some ((Block.leaf cells).read (Box.ofBlock k key).lo) := by
    rw [List.head?_eq_getElem?]
    simp [Block.read, cellIndex_lo]
  have hall : ∀ first, first = (Block.leaf cells).read (Box.ofBlock k key).lo →
      (cells.toList.all fun v => v.active == first.active &&
        withinTolerance tolerance v.value first.value) =
          isLevel k tolerance (Block.leaf cells).read key := by
    rintro first rfl
    rw [Bool.eq_iff_iff, List.all_eq_true, isLevel_iff]
    constructor
    · intro h d hd
      have hcell := h _ ((mem_cells_iff key).mpr ⟨d, hd, rfl⟩)
      rwa [Bool.and_eq_true, beq_iff_eq] at hcell
    · intro h v hv
      obtain ⟨d, hd, rfl⟩ := (mem_cells_iff key).mp hv
      rw [Bool.and_eq_true, beq_iff_eq]
      exact h d hd
  unfold blockCollapse? collapsed?
  cases hcells : cells.toList with
  | nil =>
    rw [hcells] at hfirst
    cases hfirst
  | cons first rest =>
    rw [hcells] at hfirst hall
    cases hfirst
    simp only [hcells, hall _ rfl]

/-- The leaves that collapse are those of level blocks. -/
theorem mem_collapsible {tolerance : K} {g : Grid V k} {key : Coord} {state : Voxel V} :
    (key, state) ∈ collapsible tolerance g ↔ (∃ cells, g.block? key = some (.leaf cells)) ∧
      isLevel k tolerance g.read key = true ∧ state = g.read (Box.ofBlock k key).lo := by
  have hlo := Box.blockKey_lo k key
  have hlevel : ∀ {cells}, g.block? key = some (.leaf cells) →
      isLevel k tolerance (Block.leaf cells).read key = isLevel k tolerance g.read key := by
    intro cells hcells
    rw [Bool.eq_iff_iff, isLevel_iff, isLevel_iff]
    refine forall_congr' fun d => forall_congr' fun hd => ?_
    rw [read_of_block? hcells hd, read_of_block? hcells hlo]
  unfold collapsible
  rw [List.mem_filterMap]
  constructor
  · rintro ⟨⟨key', b⟩, hb, hcollapse⟩
    rw [Option.map_eq_some_iff] at hcollapse
    obtain ⟨state', hcollapse, hpair⟩ := hcollapse
    cases hpair
    have hblock := mem_toList_blocks.mp hb
    cases b with
    | tile state' => cases hcollapse
    | leaf cells =>
      rw [blockCollapse?_leaf tolerance cells key, hlevel hblock,
        ← read_of_block? hblock hlo] at hcollapse
      split at hcollapse
      · next h => exact ⟨⟨cells, hblock⟩, h, (Option.some.inj hcollapse).symm⟩
      · cases hcollapse
  · rintro ⟨⟨cells, hblock⟩, h, rfl⟩
    refine ⟨(key, .leaf cells), mem_toList_blocks.mpr hblock, ?_⟩
    show Option.map (key, ·) (blockCollapse? tolerance (.leaf cells)) = _
    rw [blockCollapse?_leaf tolerance cells key, hlevel hblock, if_pos h,
      ← read_of_block? hblock hlo]
    rfl

theorem nodup_collapsible (tolerance : K) (g : Grid V k) :
    ((collapsible tolerance g).map Prod.fst).Nodup := by
  have hsub : ∀ blocks : List (Coord × Block V k),
      ((blocks.filterMap fun p => (blockCollapse? tolerance p.2).map (p.1, ·)).map
        Prod.fst).Sublist (blocks.map Prod.fst) := by
    intro blocks
    induction blocks with
    | nil => exact List.Sublist.refl _
    | cons p blocks ih =>
      rw [List.filterMap_cons, List.map_cons]
      cases blockCollapse? tolerance p.2 with
      | none => exact ih.cons _
      | some state => exact ih.cons_cons _
  exact (nodup_keys_toList g.blocks).sublist (hsub _)

theorem unset_putTiles (found : List (Coord × Voxel V)) (g : Grid V k) :
    (found.foldl (fun g p => g.putTile p.1 p.2) g).unset = g.unset := by
  refine List.foldlRecOn (motive := fun g' : Grid V k => g'.unset = g.unset) _ _ rfl
    fun g' h p _ => ?_
  exact (unset_putTile g' p.1 p.2).trans h

theorem background_prune (tolerance : K) (g : Grid V k) :
    (g.prune tolerance).1.background = g.background :=
  congrArg Voxel.value (unset_putTiles (collapsible tolerance g) g)

/-- Storing tiles under distinct keys stores each, unless absence says the same, and no others. -/
theorem block?_putTiles {found : List (Coord × Voxel V)} (hnodup : (found.map Prod.fst).Nodup)
    (g : Grid V k) (key : Coord) :
    (∀ state, (key, state) ∈ found →
      (found.foldl (fun g p => g.putTile p.1 p.2) g).block? key =
        if g.isUnset state then none else some (.tile state)) ∧
    ((∀ state, (key, state) ∉ found) →
      (found.foldl (fun g p => g.putTile p.1 p.2) g).block? key = g.block? key) := by
  induction found generalizing g with
  | nil => exact ⟨fun _ h => absurd h List.not_mem_nil, fun _ => rfl⟩
  | cons p found ih =>
    obtain ⟨hnot, hnodup⟩ := List.nodup_cons.mp hnodup
    obtain ⟨hset, hkeep⟩ := ih hnodup (g.putTile p.1 p.2)
    rw [List.foldl_cons]
    constructor
    · intro state hstate
      rcases List.mem_cons.mp hstate with rfl | hstate
      · -- no later tile has the key of this one
        rw [hkeep fun state h => hnot (List.mem_map.mpr ⟨_, h, rfl⟩), block?_putTile, if_pos rfl]
      · rw [hset state hstate, isUnset, unset_putTile, isUnset]
    · intro habsent
      have hkey : key ≠ p.1 := by
        rintro rfl
        exact habsent p.2 List.mem_cons_self
      rw [hkeep fun state h => habsent state (List.mem_cons_of_mem p h), block?_putTile,
        if_neg hkey]

/-- Storing tiles under distinct keys sets the voxels of these blocks, and no others. -/
theorem read_putTiles {found : List (Coord × Voxel V)} (hnodup : (found.map Prod.fst).Nodup)
    (g : Grid V k) (c : Coord) :
    (∀ state, (Box.blockKey k c, state) ∈ found →
      g.Fills state ((found.foldl (fun g p => g.putTile p.1 p.2) g).read c)) ∧
    ((∀ state, (Box.blockKey k c, state) ∉ found) →
      (found.foldl (fun g p => g.putTile p.1 p.2) g).read c = g.read c) := by
  obtain ⟨hset, hkeep⟩ := block?_putTiles hnodup g (Box.blockKey k c)
  constructor
  · intro state hstate
    rw [read, blockAt, hset state hstate, unset_putTiles]
    split
    · next hunset => exact Or.inr ⟨hunset, rfl⟩
    · exact Or.inl rfl
  · intro habsent
    rw [read, blockAt, hkeep habsent, unset_putTiles]
    rfl

/-- A leaf is left by pruning where its block is not level. -/
theorem leaf_of_prune {tolerance : K} {g : Grid V k} {key : Coord}
    {cells : Vector (Voxel V) (blockSize k)}
    (h : (g.prune tolerance).1.block? key = some (.leaf cells)) :
    g.block? key = some (.leaf cells) ∧ isLevel k tolerance g.read key = false := by
  obtain ⟨hset, hkeep⟩ := block?_putTiles (nodup_collapsible tolerance g) g key
  by_cases hfound : ∃ state, (key, state) ∈ collapsible tolerance g
  · obtain ⟨state, hstate⟩ := hfound
    have hblock := (hset state hstate).symm.trans h
    split at hblock <;> cases hblock
  · have hblock : g.block? key = some (.leaf cells) :=
      (hkeep fun state hstate => hfound ⟨state, hstate⟩).symm.trans h
    refine ⟨hblock, Bool.eq_false_iff.mpr fun hlevel => hfound ?_⟩
    exact ⟨_, mem_collapsible.mpr ⟨⟨cells, hblock⟩, hlevel, rfl⟩⟩

/-! ## Pruning -/

variable [PartialEquivBEq V]

theorem prunedView_same {tolerance : K} (htolerance : ¬ Scalar.ofInt 0 < tolerance)
    (view : Coord → Voxel V) (c : Coord) : (prunedView k tolerance view c).Same (view c) := by
  simp only [prunedView]
  split
  · next hlevel =>
    obtain ⟨hactive, hvalue⟩ := isLevel_iff.mp hlevel c rfl
    rw [withinTolerance, if_neg htolerance] at hvalue
    exact Voxel.Same.symm (Or.inr (Voxel.beq_iff.mpr ⟨hvalue, hactive⟩))
  · exact .refl _

variable [LawfulTolerance K V]

theorem withinTolerance_congr {tolerance : K} {v v' w w' : Voxel V} (hv : v.Same v')
    (hw : w.Same w') :
    withinTolerance tolerance v.value w.value = withinTolerance tolerance v'.value w'.value := by
  have hleft : withinTolerance tolerance v.value w.value =
      withinTolerance tolerance v'.value w.value := by
    rcases hv with rfl | hv
    · rfl
    · have hv := (Voxel.beq_iff.mp hv).1
      unfold withinTolerance
      rw [LawfulTolerance.within_left _ hv, Bool.eq_iff_iff.mpr
        ⟨PartialEquivBEq.trans (PartialEquivBEq.symm hv), PartialEquivBEq.trans hv⟩]
  rw [hleft]
  rcases hw with rfl | hw
  · rfl
  · have hw := (Voxel.beq_iff.mp hw).1
    have heq : (v'.value == w.value) = (v'.value == w'.value) := Bool.eq_iff_iff.mpr
      ⟨fun h => PartialEquivBEq.trans h hw,
        fun h => PartialEquivBEq.trans h (PartialEquivBEq.symm hw)⟩
    unfold withinTolerance
    rw [LawfulTolerance.within_right _ hw, heq]

/-- Views that agree as numbers have the same level blocks. -/
theorem isLevel_congr {tolerance : K} {view view' : Coord → Voxel V}
    (h : ∀ c, (view c).Same (view' c)) (key : Coord) :
    isLevel k tolerance view key = isLevel k tolerance view' key := by
  rw [Bool.eq_iff_iff, isLevel_iff, isLevel_iff]
  refine forall_congr' fun d => forall_congr' fun _ => ?_
  rw [withinTolerance_congr (h d) (h _), (h d).active_eq, (h _).active_eq]

theorem prune_same (tolerance : K) {g : Grid V k} {view : Coord → Voxel V}
    (h : ∀ c, (g.read c).Same (view c)) (c : Coord) :
    ((g.prune tolerance).1.read c).Same (prunedView k tolerance view c) := by
  obtain ⟨hset, hkeep⟩ := read_putTiles (nodup_collapsible tolerance g) g c
  have hlo := Box.blockKey_lo k (Box.blockKey k c)
  have hview : prunedView k tolerance view c =
      if isLevel k tolerance g.read (Box.blockKey k c) then
        view (Box.ofBlock k (Box.blockKey k c)).lo
      else view c := by
    rw [isLevel_congr h]
    rfl
  rw [hview]
  by_cases hlevel : isLevel k tolerance g.read (Box.blockKey k c) = true
  · rw [if_pos hlevel]
    by_cases hleaf : ∃ cells, g.block? (Box.blockKey k c) = some (.leaf cells)
    · exact (hset _ (mem_collapsible.mpr ⟨hleaf, hlevel, rfl⟩)).same.trans (h _)
    · have hread : (g.prune tolerance).1.read c = g.read c :=
        hkeep fun state hmem => hleaf (mem_collapsible.mp hmem).1
      rw [hread, ← read_eq_of_not_leaf hlo hleaf]
      exact h _
  · have hread : (g.prune tolerance).1.read c = g.read c :=
      hkeep fun state hmem => hlevel (mem_collapsible.mp hmem).2.1
    rw [if_neg hlevel, hread]
    exact h c

end Grid

end SparseVoxel

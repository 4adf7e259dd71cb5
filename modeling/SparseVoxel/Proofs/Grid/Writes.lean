import SparseVoxel.Grid.Checked
import SparseVoxel.Proofs.Grid.Stored
import SparseVoxel.Proofs.Voxel

/-!
# What bulk writing does to the view of a grid

`overwrite` is what a list of writes leaves at one voxel: the last write to it, or the old state.
`read_writeAll` says that writing many voxels block by block comes to that, whatever the order of
the blocks. `read_fill_of_mem` and `read_fill_of_not_mem` say that filling a box sets the voxels of
the box and no others. The induction is over the blocks in each case, and what a block is turned
into is a matter of that block alone.
-/

namespace SparseVoxel

/-- What writes leave at a voxel, given its old state: the last write to it counts. -/
def overwrite {V : Type} (writes : List (Coord × Voxel V)) (c : Coord) (old : Voxel V) : Voxel V :=
  writes.foldl (fun state w => if w.1 = c then w.2 else state) old

section Overwrite

variable {V : Type}

theorem overwrite_of_not_mem {writes : List (Coord × Voxel V)} {c : Coord}
    (h : ∀ w ∈ writes, w.1 ≠ c) (old : Voxel V) : overwrite writes c old = old := by
  induction writes with
  | nil => rfl
  | cons w writes ih =>
    have hw := h w List.mem_cons_self
    show overwrite writes c (if w.1 = c then w.2 else old) = old
    rw [if_neg hw]
    exact ih fun v hv => h v (List.mem_cons_of_mem w hv)

/-- A voxel that is written once gets the state written. -/
theorem overwrite_of_mem {writes : List (Coord × Voxel V)} {c : Coord} {state : Voxel V}
    (hnodup : (writes.map Prod.fst).Nodup) (h : (c, state) ∈ writes) (old : Voxel V) :
    overwrite writes c old = state := by
  induction writes generalizing old with
  | nil => cases h
  | cons w writes ih =>
    obtain ⟨hnot, hnodup⟩ := List.nodup_cons.mp hnodup
    show overwrite writes c (if w.1 = c then w.2 else old) = state
    rcases List.mem_cons.mp h with rfl | h
    · rw [if_pos rfl]
      exact overwrite_of_not_mem (fun v hv he => hnot (List.mem_map.mpr ⟨v, hv, he⟩)) _
    · exact ih hnodup h _

theorem overwrite_filter (k : Nat) (writes : List (Coord × Voxel V)) (c : Coord) (old : Voxel V) :
    overwrite (writes.filter fun w => Box.blockKey k w.1 == Box.blockKey k c) c old =
      overwrite writes c old := by
  induction writes generalizing old with
  | nil => rfl
  | cons w writes ih =>
    by_cases hkey : Box.blockKey k w.1 = Box.blockKey k c
    · rw [List.filter_cons_of_pos (by simp [hkey])]
      exact ih _
    · rw [List.filter_cons_of_neg (by simp [hkey]), ih]
      have hne : w.1 ≠ c := fun he => hkey (congrArg _ he)
      show _ = overwrite writes c (if w.1 = c then w.2 else old)
      rw [if_neg hne]

theorem overwrite_const (cs : List Coord) (state : Voxel V) (c : Coord) (old : Voxel V) :
    overwrite (cs.map (·, state)) c old = if c ∈ cs then state else old := by
  induction cs generalizing old with
  | nil => rfl
  | cons d cs ih =>
    show overwrite (cs.map (·, state)) c (if d = c then state else old) = _
    rw [ih]
    by_cases hcs : c ∈ cs
    · simp [hcs]
    · by_cases hd : d = c
      · simp [hd]
      · simp [hcs, hd, Ne.symm hd]

/-- Writing a state to each of some distinct voxels. -/
theorem overwrite_map {cs : List Coord} (hnodup : cs.Nodup) (f : Coord → Voxel V) (c : Coord)
    (old : Voxel V) : overwrite (cs.map fun d => (d, f d)) c old = if c ∈ cs then f c else old := by
  split
  · next hc =>
    refine overwrite_of_mem ?_ (List.mem_map_of_mem (f := fun d => (d, f d)) hc) old
    rw [List.map_map]
    exact (List.map_id cs).symm ▸ hnodup
  · next hc =>
    refine overwrite_of_not_mem (fun w hw he => hc ?_) old
    obtain ⟨d, hd, rfl⟩ := List.mem_map.mp hw
    exact he ▸ hd

/-- Writing only some of the states of distinct voxels. -/
theorem overwrite_filter_map {cs : List Coord} (hnodup : cs.Nodup) (f : Coord → Voxel V)
    (keep : Voxel V → Bool) (c : Coord) (old : Voxel V) :
    overwrite ((cs.map fun d => (d, f d)).filter fun w => keep w.2) c old =
      if c ∈ cs ∧ keep (f c) = true then f c else old := by
  rw [List.filter_map, overwrite_map (hnodup.filter _)]
  simp only [List.mem_filter, Function.comp_apply]

theorem overwrite_same [BEq V] (writes : List (Coord × Voxel V)) (c : Coord) {old old' : Voxel V}
    (h : old.Same old') : (overwrite writes c old).Same (overwrite writes c old') := by
  induction writes generalizing old old' with
  | nil => exact h
  | cons w writes ih =>
    refine ih ?_
    show (if w.1 = c then w.2 else old).Same (if w.1 = c then w.2 else old')
    split
    · exact .refl _
    · exact h

end Overwrite

namespace Block

variable {V : Type} {k : Nat}

/-- Writing voxels of one block comes to overwriting each of them. -/
theorem read_writeAll (b : Block V k) {writes : List (Coord × Voxel V)} {c : Coord}
    (h : ∀ w ∈ writes, Box.blockKey k w.1 = Box.blockKey k c) :
    (b.writeAll writes).read c = overwrite writes c (b.read c) := by
  have hfold : ∀ (cells : Vector (Voxel V) (blockSize k)),
      (writes.foldl (fun cells w => cells.set (cellIndex k w.1) w.2) cells)[cellIndex k c] =
        overwrite writes c cells[cellIndex k c] := by
    induction writes with
    | nil => exact fun _ => rfl
    | cons w writes ih =>
      intro cells
      have hw := h w List.mem_cons_self
      rw [List.foldl_cons, ih fun v hv => h v (List.mem_cons_of_mem w hv)]
      show _ = overwrite writes c (if w.1 = c then w.2 else cells[cellIndex k c])
      congr 1
      have hwrite : ((Block.leaf cells).write w.1 w.2).read c = _ := read_write hw.symm
      by_cases he : w.1 = c
      · rw [if_pos he.symm] at hwrite
        rw [if_pos he]
        exact hwrite
      · rw [if_neg (Ne.symm he)] at hwrite
        rw [if_neg he]
        exact hwrite
  rw [← b.cells_cellIndex c]
  exact hfold b.cells

end Block

namespace Grid

variable {V : Type} {k : Nat}

/-! ## Altering blocks -/

theorem read_alterBlock (g : Grid V k) (key : Coord) (f : Block V k → Block V k) (c : Coord) :
    (g.alterBlock key f).read c =
      if Box.blockKey k c = key then (f (g.blockAt key)).read c else g.read c := by
  rw [read, blockAt_alterBlock]
  split
  · rfl
  · rfl

/-! ## Writing many voxels -/

/-- The group of a block holds the writes to its voxels in their order. -/
theorem getElem?_groupWrites (k : Nat) (writes : List (Coord × Voxel V)) (key : Coord) :
    ((groupWrites k writes)[key]?).getD [] =
      writes.filter fun w => Box.blockKey k w.1 == key := by
  induction writes with
  | nil => simp [groupWrites]
  | cons w writes ih =>
    show ((Std.TreeMap.alter (groupWrites k writes) _ _)[key]?).getD [] = _
    rw [Std.TreeMap.getElem?_alter]
    by_cases hkey : Box.blockKey k w.1 = key
    · rw [if_pos (Std.LawfulEqOrd.compare_eq_iff_eq.mpr hkey), hkey,
        List.filter_cons_of_pos (by simp [hkey]), Option.getD_some, ih]
    · rw [if_neg fun h => hkey (Std.LawfulEqOrd.eq_of_compare h),
        List.filter_cons_of_neg (by simp [hkey]), ih]

theorem unset_alterAll (groups : List (Coord × List (Coord × Voxel V))) (g : Grid V k) :
    (groups.foldl (fun g p => g.alterBlock p.1 (·.writeAll p.2)) g).unset = g.unset :=
  List.foldlRecOn (motive := fun g' : Grid V k => g'.unset = g.unset) _ _ rfl fun _ h _ _ => h

/-- Altering distinct blocks, each in its own way, stores under each key what is its own. -/
theorem block?_alterAll {groups : List (Coord × List (Coord × Voxel V))}
    (hnodup : (groups.map Prod.fst).Nodup) (g : Grid V k) (key : Coord) :
    (groups.foldl (fun g p => g.alterBlock p.1 (·.writeAll p.2)) g).block? key =
      match groups.lookup key with
      | some ws => some ((g.blockAt key).writeAll ws)
      | none => g.block? key := by
  induction groups generalizing g with
  | nil => rfl
  | cons p groups ih =>
    obtain ⟨hnot, hnodup⟩ := List.nodup_cons.mp hnodup
    rw [List.foldl_cons, ih hnodup, blockAt_alterBlock, block?_alterBlock, List.lookup_cons]
    by_cases hkey : key = p.1
    · subst hkey
      have hnone : groups.lookup p.1 = none := by
        rw [List.lookup_eq_none_iff]
        intro q hq
        rw [bne_iff_ne]
        exact fun he => hnot (List.mem_map.mpr ⟨q, hq, he.symm⟩)
      simp [hnone]
    · rw [if_neg hkey, if_neg hkey, beq_false_of_ne hkey]

theorem blockAt_alterAll {groups : List (Coord × List (Coord × Voxel V))}
    (hnodup : (groups.map Prod.fst).Nodup) (g : Grid V k) (key : Coord) :
    (groups.foldl (fun g p => g.alterBlock p.1 (·.writeAll p.2)) g).blockAt key =
      match groups.lookup key with
      | some ws => (g.blockAt key).writeAll ws
      | none => g.blockAt key := by
  rw [blockAt, block?_alterAll hnodup, unset_alterAll]
  cases groups.lookup key with
  | some ws => rfl
  | none => rfl

theorem lookup_toList_eq {W : Type} (m : Std.TreeMap Coord W) (key : Coord) :
    m.toList.lookup key = m[key]? := by
  cases hm : m[key]? with
  | none =>
    rw [List.lookup_eq_none_iff]
    intro q hq
    rw [bne_iff_ne]
    rintro rfl
    rw [Std.TreeMap.mem_toList_iff_getElem?_eq_some.mp hq] at hm
    cases hm
  | some w =>
    have hmem := Std.TreeMap.mem_toList_iff_getElem?_eq_some.mpr hm
    have hdistinct := m.distinct_keys_toList
    generalize m.toList = l at hmem hdistinct
    induction l with
    | nil => cases hmem
    | cons p l ih =>
      obtain ⟨hp, hl⟩ := List.pairwise_cons.mp hdistinct
      rw [List.lookup_cons]
      rcases List.mem_cons.mp hmem with rfl | hmem
      · simp
      · have hne : key ≠ p.1 := fun he =>
          hp _ hmem (Std.LawfulEqOrd.compare_eq_iff_eq.mpr he.symm)
        rw [beq_false_of_ne hne]
        exact ih hmem hl

/-- Writing many voxels leaves at each the last state written to it. -/
theorem read_writeAll (g : Grid V k) (writes : List (Coord × Voxel V)) (c : Coord) :
    (g.writeAll writes).read c = overwrite writes c (g.read c) := by
  have hnodup := nodup_keys_toList (groupWrites k writes)
  have hgroup := getElem?_groupWrites k writes (Box.blockKey k c)
  rw [← overwrite_filter k writes c, ← hgroup, read, writeAll,
    Std.TreeMap.foldl_eq_foldl_toList, blockAt_alterAll hnodup, lookup_toList_eq]
  cases hws : (groupWrites k writes)[Box.blockKey k c]? with
  | none => rfl
  | some ws =>
    rw [hws, Option.getD_some] at hgroup
    refine Block.read_writeAll _ fun w hw => ?_
    rw [hgroup, List.mem_filter, beq_iff_eq] at hw
    exact hw.2

theorem background_writeAll (g : Grid V k) (writes : List (Coord × Voxel V)) :
    (g.writeAll writes).background = g.background := by
  rw [writeAll, Std.TreeMap.foldl_eq_foldl_toList]
  exact congrArg Voxel.value (unset_alterAll _ g)

/-! ## Filling a box -/

variable [BEq V]

theorem block?_putTile (g : Grid V k) (key other : Coord) (state : Voxel V) :
    (g.putTile key state).block? other =
      if other = key then (if g.isUnset state then none else some (.tile state))
      else g.block? other := by
  unfold putTile
  by_cases h : other = key
  · subst h
    split <;> simp [block?]
  · rw [if_neg h]
    split
    · simp [block?, Std.TreeMap.getElem?_erase, Coord.compare_ne h]
    · simp [block?, Std.TreeMap.getElem?_insert, Coord.compare_ne h]

theorem unset_putTile (g : Grid V k) (key : Coord) (state : Voxel V) :
    (g.putTile key state).unset = g.unset := by
  unfold putTile
  split
  · rfl
  · rfl

/-- What filling with a state may leave at a voxel: that state, or the one of an absent block
where both are equal as numbers. -/
def Fills (g : Grid V k) (state new : Voxel V) : Prop :=
  new = state ∨ g.isUnset state = true ∧ new = g.unset

theorem Fills.same [PartialEquivBEq V] {g : Grid V k} {state new : Voxel V}
    (h : g.Fills state new) : new.Same state := by
  rcases h with rfl | ⟨hunset, rfl⟩
  · exact .refl _
  · exact Or.inr (PartialEquivBEq.symm hunset)

theorem fillBlock_eq (box : Box) (state : Voxel V) (g : Grid V k) (key : Coord) :
    fillBlock box state g key =
      if box.containsBox (Box.ofBlock k key) = true then g.putTile key state
      else g.alterBlock key (·.writeAll ((box.inBlock k key).coords.map (·, state))) :=
  rfl

theorem unset_fillBlock (box : Box) (state : Voxel V) (g : Grid V k) (key : Coord) :
    (fillBlock box state g key).unset = g.unset := by
  rw [fillBlock_eq]
  split
  · exact unset_putTile g key state
  · rfl

theorem unset_fill (g : Grid V k) (box : Box) (state : Voxel V) :
    (g.fill box state).unset = g.unset := by
  unfold fill
  split
  · rfl
  · refine List.foldlRecOn (motive := fun g' : Grid V k => g'.unset = g.unset) _ _ rfl
      fun g' h key _ => ?_
    exact (unset_fillBlock box state g' key).trans h

theorem fills_putTile (g : Grid V k) (key : Coord) (state : Voxel V) {c : Coord}
    (hkey : Box.blockKey k c = key) : g.Fills state ((g.putTile key state).read c) := by
  rw [read, blockAt, block?_putTile, if_pos hkey, unset_putTile]
  split
  · next hunset => exact Or.inr ⟨hunset, rfl⟩
  · exact Or.inl rfl

theorem read_putTile_of_ne (g : Grid V k) (key : Coord) (state : Voxel V) {c : Coord}
    (hkey : Box.blockKey k c ≠ key) : (g.putTile key state).read c = g.read c := by
  rw [read, blockAt, block?_putTile, if_neg hkey, unset_putTile]
  rfl

theorem fills_fillBlock {box : Box} (state : Voxel V) (g : Grid V k) {c : Coord} (hc : c ∈ box) :
    g.Fills state ((fillBlock box state g (Box.blockKey k c)).read c) := by
  rw [fillBlock_eq]
  split
  · exact fills_putTile g _ state rfl
  · refine Or.inl ?_
    have hpart : c ∈ box.inBlock k (Box.blockKey k c) := Box.mem_inBlock.mpr ⟨hc, rfl⟩
    rw [read_alterBlock, if_pos rfl, Block.read_writeAll, overwrite_const,
      if_pos (Box.mem_coords.mpr hpart)]
    intro w hw
    obtain ⟨d, hd, rfl⟩ := List.mem_map.mp hw
    exact (Box.mem_inBlock.mp (Box.mem_coords.mp hd)).2

theorem read_fillBlock_of_not_mem {box : Box} (state : Voxel V) (g : Grid V k) {key c : Coord}
    (h : c ∉ box ∨ Box.blockKey k c ≠ key) : (fillBlock box state g key).read c = g.read c := by
  by_cases hkey : Box.blockKey k c = key
  · have hc : c ∉ box := h.resolve_right fun hne => hne hkey
    rw [fillBlock_eq]
    split
    · next hbox => exact absurd (Box.containsBox_ofBlock_iff.mp hbox c hkey) hc
    · rw [read_alterBlock, if_pos hkey, Block.read_writeAll, overwrite_const, if_neg, ← hkey, read]
      · exact fun hmem => hc (Box.mem_inBlock.mp (Box.mem_coords.mp hmem)).1
      · intro w hw
        obtain ⟨d, hd, rfl⟩ := List.mem_map.mp hw
        exact (Box.mem_inBlock.mp (Box.mem_coords.mp hd)).2.trans hkey.symm
  · rw [fillBlock_eq]
    split
    · exact read_putTile_of_ne g key state hkey
    · rw [read_alterBlock, if_neg hkey]

theorem read_fill_of_mem (g : Grid V k) {box : Box} (state : Voxel V) {c : Coord} (hc : c ∈ box) :
    g.Fills state ((g.fill box state).read c) := by
  have hfold : ∀ (keys : List Coord) (g' : Grid V k), g'.unset = g.unset →
      Box.blockKey k c ∈ keys ∨ g.Fills state (g'.read c) →
      g.Fills state ((keys.foldl (fillBlock box state) g').read c) := by
    intro keys
    induction keys with
    | nil => exact fun _ _ h => h.resolve_left List.not_mem_nil
    | cons key keys ih =>
      intro g' hunset h
      refine ih _ ((unset_fillBlock box state g' key).trans hunset) ?_
      by_cases hkeys : Box.blockKey k c ∈ keys
      · exact Or.inl hkeys
      · right
        by_cases hkey : Box.blockKey k c = key
        · have hfills := fills_fillBlock state g' hc
          rw [hkey] at hfills
          simpa only [Fills, isUnset, hunset] using hfills
        · rw [read_fillBlock_of_not_mem state g' (Or.inr hkey)]
          exact h.resolve_left fun hmem => (List.mem_cons.mp hmem).elim hkey hkeys
  rw [fill, Box.isEmpty_eq_false.mpr (Box.nonempty_of_mem hc), if_neg Bool.false_ne_true]
  exact hfold _ g rfl (Or.inl (Box.blockKey_mem_blocks hc))

theorem read_fill_of_not_mem (g : Grid V k) {box : Box} (state : Voxel V) {c : Coord}
    (hc : c ∉ box) : (g.fill box state).read c = g.read c := by
  unfold fill
  split
  · rfl
  · refine List.foldlRecOn (motive := fun g' : Grid V k => g'.read c = g.read c) _ _ rfl
      fun g' h key _ => ?_
    exact (read_fillBlock_of_not_mem state g' (Or.inl hc)).trans h

/-- Where values are equal only when they are the same, filling sets the state itself. -/
theorem read_fill [LawfulBEq V] (g : Grid V k) (box : Box) (state : Voxel V) (c : Coord) :
    (g.fill box state).read c = if c ∈ box then state else g.read c := by
  split
  · next hc => exact Voxel.eq_of_same (read_fill_of_mem g state hc).same
  · next hc => exact read_fill_of_not_mem g state hc

end Grid

end SparseVoxel

import SparseVoxel.Proofs.Grid.Active
import SparseVoxel.Proofs.Grid.Count
import SparseVoxel.Proofs.Machine

/-!
# Queries for active voxels

The list of active voxels, their number and the box around them come from three passes over the
stored blocks. Each of them agrees with what the grid reads (`active_queries`): the list has every
active voxel once, with its value, the number is the length of the list, and the box is the least
one, each of its faces touching an active voxel (`Box.Encloses.tight`).

On the machine of words this holds where all coordinates of stored blocks are words. A tile is
listed by way of an array of its coordinates, for which there has to be memory.
-/

namespace SparseVoxel

/-! ## Tight boxes -/

namespace Box

/-- A box that holds all voxels with a property, and each of whose faces touches one; or no box
where there is no such voxel. -/
structure Tight (found : Option Box) (P : Coord → Prop) : Prop where
  none_iff : found = none ↔ ∀ c, ¬ P c
  mem_of : ∀ b, found = some b → ∀ c, P c → c ∈ b
  /-- It lies in every box that holds all these voxels. -/
  least : ∀ b, found = some b → ∀ whole : Box, (∀ c, P c → c ∈ whole) →
    whole.containsBox b = true
  touches_lo : ∀ b, found = some b → ∀ axis, ∃ c, P c ∧ c.get axis = b.lo.get axis
  touches_hi : ∀ b, found = some b → ∀ axis, ∃ c, P c ∧ c.get axis = b.hi.get axis

/-- The box without its lower face on an axis. -/
def dropLo (b : Box) (axis : Axis) : Box :=
  ⟨b.lo.set axis (b.lo.get axis + 1), b.hi⟩

/-- The box without its upper face on an axis. -/
def dropHi (b : Box) (axis : Axis) : Box :=
  ⟨b.lo, b.hi.set axis (b.hi.get axis - 1)⟩

theorem mem_dropLo_iff {b : Box} {axis : Axis} {c : Coord} (hc : c ∈ b) :
    c ∈ b.dropLo axis ↔ c.get axis ≠ b.lo.get axis := by
  obtain ⟨⟨hx, hx'⟩, ⟨hy, hy'⟩, hz, hz'⟩ := hc
  cases axis <;> simp only [dropLo, Membership.mem, Vec3.set, Vec3.get] <;> omega

theorem mem_dropHi_iff {b : Box} {axis : Axis} {c : Coord} (hc : c ∈ b) :
    c ∈ b.dropHi axis ↔ c.get axis ≠ b.hi.get axis := by
  obtain ⟨⟨hx, hx'⟩, ⟨hy, hy'⟩, hz, hz'⟩ := hc
  cases axis <;> simp only [dropHi, Membership.mem, Vec3.set, Vec3.get] <;> omega

theorem Encloses.nonempty {b : Box} {P : Coord → Prop} (h : Encloses (some b) P) : b.Nonempty := by
  obtain ⟨c, hc⟩ := h.exists_voxel
  exact nonempty_of_mem (h.1 c hc)

/-- Without a voxel at a corner's coordinate on an axis, the box could do without that face. -/
theorem Encloses.touches {b part : Box} {P : Coord → Prop} (h : Encloses (some b) P) {axis : Axis}
    {corner : Coord} (hcorner : corner ∈ b) (hleast : (∀ c, P c → c ∈ part) → corner ∈ part)
    (hpart : ∀ c, c ∈ b → (c ∈ part ↔ c.get axis ≠ corner.get axis)) :
    ∃ c, P c ∧ c.get axis = corner.get axis := by
  by_contra hnone
  have hmem := hleast fun c hc =>
    (hpart c (h.1 c hc)).mpr fun he => hnone ⟨c, hc, he⟩
  exact (hpart corner hcorner).mp hmem rfl

theorem Encloses.tight {found : Option Box} {P : Coord → Prop} (h : Encloses found P) :
    Tight found P where
  none_iff := by
    cases found with
    | none => exact iff_of_true rfl h
    | some b =>
      obtain ⟨c, hc⟩ := h.exists_voxel
      exact iff_of_false nofun fun hnone => hnone c hc
  mem_of := by
    rintro b rfl
    exact h.1
  least := by
    rintro b rfl whole hwhole
    rw [containsBox, Bool.and_eq_true, decide_eq_true_eq, decide_eq_true_eq]
    exact h.2 whole hwhole
  touches_lo := by
    rintro b rfl axis
    exact h.touches (lo_mem h.nonempty) (fun hpart => (h.2 _ hpart).1) fun c => mem_dropLo_iff
  touches_hi := by
    rintro b rfl axis
    exact h.touches (hi_mem h.nonempty) (fun hpart => (h.2 _ hpart).2) fun c => mem_dropHi_iff

end Box

/-! ## Blocks on the machine of words -/

namespace Block

variable {V : Type} {k : Nat} {b : Block V k} {key : Coord}

theorem actives_of_tile {state : Voxel V} (h : state.active = true) :
    (Block.tile state : Block V k).actives key =
      (Box.ofBlock k key).coords.map (·, state.value) := by
  simp only [actives, read, h, if_true]
  exact congrFun List.filterMap_eq_map _

theorem actives_of_inactive_tile {state : Voxel V} (h : state.active = false) :
    (Block.tile state : Block V k).actives key = [] := by
  simp only [actives, read, h, Bool.false_eq_true, if_false]
  exact List.filterMap_none _

/-- The box around the active voxels of a block lies in the block. -/
theorem corners_activeBox? {box : Box} (h : b.activeBox? key = some box) :
    box.lo ∈ Box.ofBlock k key ∧ box.hi ∈ Box.ofBlock k key := by
  have hencloses := b.encloses_activeBox? key
  rw [h] at hencloses
  exact hencloses.2 _ fun c hc => Box.mem_ofBlock.mpr hc.1

theorem listActives?_ideal (b : Block V k) (key : Coord) :
    b.listActives? .ideal key = .ok (b.actives key) := by
  cases b with
  | tile state =>
    cases hactive : state.active with
    | true =>
      rw [actives_of_tile hactive, listActives?, if_pos hactive]
      rfl
    | false =>
      rw [actives_of_inactive_tile hactive, listActives?, if_neg (by simp [hactive])]
      rfl
  | leaf cells =>
    exact congrArg Except.ok (List.map_id _)

/-- Where the machine finds the voxels of a block it bounds the active ones as they lie. -/
theorem boundActives?_of_finds {machine : Machine} (h : machine.Finds k key) :
    b.boundActives? machine key = .ok (b.activeBox? key) := by
  obtain ⟨place, hplace, hfixes⟩ := h
  cases b with
  | tile state => rfl
  | leaf cells =>
    unfold boundActives?
    cases hbox : (Block.leaf cells).activeBox? key with
    | none => rfl
    | some box =>
      obtain ⟨hlo, hhi⟩ := corners_activeBox? hbox
      refine bind_eq_ok.mpr ⟨place, hplace, ?_⟩
      rw [hfixes _ hlo, hfixes _ hhi]
      rfl

/-- Without active voxels there is nothing to be found. -/
theorem boundActives?_of_none {machine : Machine} (h : b.activeBox? key = none) :
    b.boundActives? machine key = .ok none := by
  cases b with
  | tile state => exact congrArg Except.ok h
  | leaf cells =>
    unfold boundActives?
    rw [h]

theorem listActives?_words (hwords : (Box.ofBlock k key).FitsWords)
    (hroom : ∀ state, b = .tile state → state.active = true → Machine.words.HasListRoom k) :
    b.listActives? .words key = .ok (b.actives key) := by
  cases b with
  | tile state =>
    cases hactive : state.active with
    | true =>
      have hcoords := Machine.wordCoords?_ofBlock (hroom state rfl hactive) hwords
      rw [actives_of_tile hactive, listActives?, if_pos hactive]
      exact bind_eq_ok.mpr ⟨_, hcoords, rfl⟩
    | false =>
      rw [actives_of_inactive_tile hactive, listActives?, if_neg (by simp [hactive])]
      rfl
  | leaf cells =>
    refine bind_eq_ok.mpr ⟨_, Machine.wordLocate?_of_fits hwords, ?_⟩
    refine congrArg Except.ok ((List.map_congr_left fun ⟨c, v⟩ hp => ?_).trans (List.map_id _))
    exact Prod.ext (hwords.wrapSigned (Box.mem_ofBlock.mpr (mem_actives.mp hp).1)) rfl

theorem boundActives?_words (hwords : (Box.ofBlock k key).FitsWords) :
    b.boundActives? .words key = .ok (b.activeBox? key) :=
  boundActives?_of_finds (Machine.finds_words hwords)

end Block

/-! ## Grids -/

namespace Grid

variable {V : Type} {k : Nat} {machine : Machine} {g : Grid V k}

/-- What a machine lists block by block are the active voxels, in another order. -/
theorem listActive?_eq_ok (h : ∀ key b, g.block? key = some b →
    b.listActives? machine key = .ok (b.actives key)) :
    ∃ found, g.listActive? machine = .ok found ∧ found.Perm g.activeVoxels := by
  let blocks := (g.blocks.toList.filter fun p => p.2.isLeaf) ++
    g.blocks.toList.filter fun p => !p.2.isLeaf
  have hperm : blocks.Perm g.blocks.toList := List.filter_append_perm _ _
  have hlist : blocks.mapM (fun p => p.2.listActives? machine p.1) =
      .ok (blocks.map fun p => p.2.actives p.1) :=
    mapM_eq_ok fun p hp => h p.1 p.2 (mem_toList_blocks.mp (hperm.mem_iff.mp hp))
  refine ⟨(blocks.map fun p => p.2.actives p.1).flatten, ?_, ?_⟩
  · rw [listActive?, List.partition_eq_filter_filter]
    exact bind_eq_ok.mpr ⟨_, hlist, rfl⟩
  · rw [← List.flatMap_def]
    exact hperm.flatMap_right _

theorem boundActive?_eq_ok (h : ∀ key b, g.block? key = some b →
    b.boundActives? machine key = .ok (b.activeBox? key)) :
    g.boundActive? machine = .ok g.activeBox? := by
  have hfold : ∀ (blocks : List (Coord × Block V k)) (found : Option Box),
      (∀ p ∈ blocks, p.2.boundActives? machine p.1 = .ok (p.2.activeBox? p.1)) →
        blocks.foldlM (fun found p => do
            return Box.union? found (← p.2.boundActives? machine p.1)) found =
          .ok (blocks.foldl (fun found p => Box.union? found (p.2.activeBox? p.1)) found) := by
    intro blocks
    induction blocks with
    | nil => exact fun _ _ => rfl
    | cons p blocks ih =>
      intro found hblocks
      obtain ⟨hp, hblocks⟩ := List.forall_mem_cons.mp hblocks
      rw [List.foldlM_cons, List.foldl_cons, hp]
      exact ih _ hblocks
  exact hfold _ none fun p hp => h p.1 p.2 (mem_toList_blocks.mp hp)

/-- The list that a machine answers has every active voxel once, with its value, and the count is
that of the voxels in the list. -/
def ListsActive (machine : Machine) (g : Grid V k) : Prop :=
  ∃ found, g.listActive? machine = .ok found ∧ (found.map Prod.fst).Nodup ∧
    (∀ c v, (c, v) ∈ found ↔ g.read c = ⟨v, true⟩) ∧ g.activeCount = found.length

/-- The box that a machine answers is the tight one around the active voxels. -/
def BoundsActive (machine : Machine) (g : Grid V k) : Prop :=
  ∃ found, g.boundActive? machine = .ok found ∧
    Box.Tight found fun c => (g.read c).active = true

theorem listsActive_of_blocks (h : ∀ key b, g.block? key = some b →
    b.listActives? machine key = .ok (b.actives key)) : g.ListsActive machine := by
  obtain ⟨found, hfound, hperm⟩ := listActive?_eq_ok h
  have hmem : ∀ c v, (c, v) ∈ found ↔ g.read c = ⟨v, true⟩ := fun c v =>
    hperm.mem_iff.trans mem_activeVoxels
  refine ⟨found, hfound, ?_, hmem, ?_⟩
  · refine List.Nodup.map_on ?_ (hperm.nodup_iff.mpr (nodup_activeVoxels g))
    rintro ⟨c, v⟩ hp ⟨d, w⟩ hq (rfl : c = d)
    have hread := ((hmem c v).mp hp).symm.trans ((hmem c w).mp hq)
    exact congrArg (Prod.mk c) (congrArg Voxel.value hread)
  · rw [activeCount_eq_length, hperm.length_eq]

theorem boundsActive_of_blocks (h : ∀ key b, g.block? key = some b →
    b.boundActives? machine key = .ok (b.activeBox? key)) : g.BoundsActive machine :=
  ⟨_, boundActive?_eq_ok h, g.encloses_activeBox?.tight⟩

/-- Every coordinate of a stored block is a word with a sign. -/
def FitsWords (g : Grid V k) : Prop :=
  ∀ key, (g.block? key).isSome = true → (Box.ofBlock k key).FitsWords

/-- **Queries for active voxels.** On the ideal machine the list, the count and the box agree with
what the grid reads. On the machine of words they do where all coordinates of stored blocks are
words; if there are active tiles, the list takes memory for the coordinates of one. -/
theorem active_queries (g : Grid V k) :
    (g.ListsActive .ideal ∧ g.BoundsActive .ideal) ∧
      (g.FitsWords → g.BoundsActive .words ∧
        ((∀ key state, g.block? key = some (.tile state) → state.active = true →
          Machine.words.HasListRoom k) → g.ListsActive .words)) := by
  refine ⟨⟨listsActive_of_blocks fun key b _ => b.listActives?_ideal key,
    boundsActive_of_blocks fun key b _ => b.boundActives?_ideal key⟩, fun hwords => ⟨?_, ?_⟩⟩
  · exact boundsActive_of_blocks fun key b hb =>
      Block.boundActives?_words (hwords key (by rw [hb]; rfl))
  · intro hroom
    refine listsActive_of_blocks fun key b hb => ?_
    refine Block.listActives?_words (hwords key (by rw [hb]; rfl)) ?_
    rintro state rfl hactive
    exact hroom key state hb hactive

theorem fitsWords_of_toList
    (h : ∀ p ∈ g.blocks.toList, ∀ c ∈ (Box.ofBlock k p.1).coords, ∀ n ∈ c.toList,
      Word.isSigned Word.bound64 n = true) : g.FitsWords := by
  intro key hkey c hc
  obtain ⟨b, hb⟩ := Option.isSome_iff_exists.mp hkey
  exact h (key, b) (mem_toList_blocks.mpr hb) c (Box.mem_coords.mpr hc)

/-- An active tile, and a leaf with one active voxel. -/
theorem active_queries_of_tile_and_leaf :
    let g : Grid Int32 1 :=
      ((Grid.empty 0).fill ⟨⟨0, 0, 0⟩, ⟨1, 1, 1⟩⟩ ⟨7, true⟩).write ⟨5, -1, 0⟩ ⟨3, true⟩
    g.FitsWords ∧ g.BoundsActive .words ∧ g.ListsActive .words ∧ g.activeCount = 9 ∧
      g.boundActive? .words = .ok (some ⟨⟨0, -1, 0⟩, ⟨5, 1, 1⟩⟩) := by
  intro g
  have hwords : g.FitsWords := fitsWords_of_toList (by decide +kernel)
  obtain ⟨hbounds, hlists⟩ := (active_queries g).2 hwords
  exact ⟨hwords, hbounds, hlists fun _ _ _ _ => rfl, by decide +kernel, rfl⟩

end Grid

end SparseVoxel

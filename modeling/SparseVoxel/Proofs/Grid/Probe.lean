import SparseVoxel.Grid.Lemmas
import SparseVoxel.Proofs.Grid.Uniform
import SparseVoxel.Proofs.Scalar.Comparison

/-!
# Probing decides uniformity

`Grid.examine?` finds a state exactly when the voxels of a box are all equal as numbers, and when
only tiles count, exactly when moreover none of them is stored in a leaf
(`examine?_decides`). That a state which is found is shared by all voxels is `same_of_uniform?`;
here is the converse. No state is found for one of three reasons: a block has none, two blocks
have different ones, or an absent block reads otherwise than a stored one. Each of the three shows
two voxels that differ, because every block that is looked at holds a voxel of the box.
-/

namespace SparseVoxel.Grid

variable {V : Type} {k : Nat}

/-- When the stored blocks do not make up the volume of a box, some voxel of it is not stored. -/
theorem exists_not_stored {g : Grid V k} {box : Box}
    (h : (g.storedKeys box).foldr (fun key n => (box.inBlock k key).volume + n) 0 < box.volume) :
    ∃ c ∈ box, (g.block? (Box.blockKey k c)).isSome = false := by
  rw [Box.sum_volume_inBlock box k (g.nodup_storedKeys box), ← Box.length_coords] at h
  by_contra hnot
  refine absurd (List.countP_eq_length.mpr fun c hc => decide_eq_true ?_) (Nat.ne_of_lt h)
  have hc := Box.mem_coords.mp hc
  exact (blockKey_mem_storedKeys hc).mpr (Bool.of_not_eq_false fun he => hnot ⟨c, hc, he⟩)

variable [BEq V]

/-- Two voxels of a box differ. -/
def Varies (g : Grid V k) (box : Box) : Prop :=
  ∃ c ∈ box, ∃ d ∈ box, (g.read c == g.read d) = false

/-- A voxel of a box is stored in a leaf. -/
def MeetsLeaf (g : Grid V k) (box : Box) : Prop :=
  ∃ c ∈ box, ∃ cells, g.block? (Box.blockKey k c) = some (.leaf cells)

variable {g : Grid V k} {box : Box} {tilesOnly : Bool}

/-- A stored block without a shared state is a leaf; unless only tiles count, two of its voxels in
the box differ. -/
theorem of_sharedState?_eq_none (hbox : box.Nonempty) {key : Coord}
    (hkey : key ∈ g.storedKeys box)
    (h : g.sharedState? (box.inBlock k key) tilesOnly key = none) :
    g.Varies box ∨ tilesOnly = true ∧ g.MeetsLeaf box := by
  obtain ⟨hrange, hstored⟩ := mem_storedKeys.mp hkey
  obtain ⟨c, hc, rfl⟩ := Box.exists_mem_of_mem_blockRange hbox hrange
  obtain ⟨b, hb⟩ := Option.isSome_iff_exists.mp hstored
  have hat : g.blockAt (Box.blockKey k c) = b := by rw [blockAt, hb, Option.getD_some]
  unfold sharedState? at h
  rw [hat] at h
  cases b with
  | tile state => cases h
  | leaf cells =>
    cases tilesOnly with
    | true => exact Or.inr ⟨rfl, c, hc, cells, hb⟩
    | false =>
      left
      have hreads : ∀ state ∈ (box.inBlock k (Box.blockKey k c)).coords.map (Block.leaf cells).read,
          ∃ d ∈ box, g.read d = state := by
        intro state hstate
        obtain ⟨d, hd, rfl⟩ := List.mem_map.mp hstate
        obtain ⟨hd, hkey⟩ := Box.mem_coords_inBlock.mp hd
        exact ⟨d, hd, read_of_block? hb hkey⟩
      simp only [Bool.false_eq_true, if_false] at h
      split at h
      · next hempty =>
        have hmem : c ∈ (box.inBlock k (Box.blockKey k c)).coords :=
          Box.mem_coords_inBlock.mpr ⟨hc, rfl⟩
        rw [List.map_eq_nil_iff.mp hempty] at hmem
        cases hmem
      · next first rest hstates =>
        rw [hstates] at hreads
        split at h
        · cases h
        · next hall =>
          rw [List.all_eq_true] at hall
          push Not at hall
          obtain ⟨state, hstate, hne⟩ := hall
          obtain ⟨d, hd, rfl⟩ := hreads state hstate
          obtain ⟨e, he, rfl⟩ := hreads first List.mem_cons_self
          exact ⟨d, hd, e, he, Bool.eq_false_iff.mpr hne⟩

/-- A state shared by a stored block is that of a voxel of the box. -/
theorem exists_same_of_sharedState? (hbox : box.Nonempty) {key : Coord}
    (hkey : key ∈ g.storedKeys box) {state : Voxel V}
    (h : g.sharedState? (box.inBlock k key) tilesOnly key = some state) :
    ∃ c ∈ box, (g.read c).Same state := by
  obtain ⟨c, hc, rfl⟩ := Box.exists_mem_of_mem_blockRange hbox (mem_storedKeys.mp hkey).1
  exact ⟨c, hc, sharedState?_same h (Box.mem_inBlock.mpr ⟨hc, rfl⟩) rfl⟩

theorem uniform?_of_meetsLeaf (h : g.MeetsLeaf box) : g.uniform? box true = none := by
  obtain ⟨c, hc, cells, hb⟩ := h
  have hkey : Box.blockKey k c ∈ g.storedKeys box :=
    (blockKey_mem_storedKeys hc).mpr (by rw [hb]; rfl)
  have hshared : g.sharedState? (box.inBlock k (Box.blockKey k c)) true (Box.blockKey k c) =
      none := by
    rw [sharedState?, blockAt, hb]
    rfl
  simp only [uniform?]
  split
  · rfl
  · next hstates =>
    obtain ⟨state, hstate, -⟩ := mem_of_mapM_eq_some hstates hkey
    cases hstate
  · next hstates =>
    obtain ⟨state, -, hfound⟩ := mem_of_mapM_eq_some hstates hkey
    rw [hshared] at hfound
    cases hfound

variable [PartialEquivBEq V]

/-- Voxels that are numbers differ if they have states that differ. -/
theorem varies_of_same (hnumber : ∀ c ∈ box, (g.read c == g.read c) = true) {c d : Coord}
    (hc : c ∈ box) (hd : d ∈ box) {s t : Voxel V} (hs : (g.read c).Same s)
    (ht : (g.read d).Same t) (hne : ¬ (s == t) = true) : g.Varies box := by
  refine ⟨c, hc, d, hd, Bool.eq_false_iff.mpr fun heq => hne ?_⟩
  have hcs : (s == g.read c) = true := hs.symm.beq (hnumber c hc)
  have hdt : (t == g.read d) = true := ht.symm.beq (hnumber d hd)
  exact PartialEquivBEq.trans hcs (PartialEquivBEq.trans heq (PartialEquivBEq.symm hdt))

/-- No state is found only for a reason. -/
theorem of_uniform?_eq_none (hbox : box.Nonempty)
    (hnumber : ∀ c ∈ box, (g.read c == g.read c) = true)
    (h : g.uniform? box tilesOnly = none) : g.Varies box ∨ tilesOnly = true ∧ g.MeetsLeaf box := by
  simp only [uniform?] at h
  split at h
  · next hnone =>
    obtain ⟨key, hkey, hshared⟩ := exists_of_mapM_eq_none hnone
    exact of_sharedState?_eq_none hbox hkey hshared
  · cases h
  · next first rest hstates =>
    left
    have hshown : ∀ state ∈ first :: rest, ∃ c ∈ box, (g.read c).Same state := by
      intro state hstate
      obtain ⟨key, hkey, hshared⟩ := exists_of_mem_mapM hstates hstate
      exact exists_same_of_sharedState? hbox hkey hshared
    obtain ⟨c, hc, hfirst⟩ := hshown first List.mem_cons_self
    split at h
    · split at h
      · next hcovered =>
        split at h
        · cases h
        · next hunset =>
          obtain ⟨d, hd, habsent⟩ := exists_not_stored hcovered
          exact varies_of_same hnumber hc hd hfirst (Or.inl (read_of_not_stored habsent)) hunset
      · cases h
    · next hall =>
      rw [List.all_eq_true] at hall
      push Not at hall
      obtain ⟨state, hstate, hne⟩ := hall
      obtain ⟨d, hd, hother⟩ := hshown state (List.mem_cons_of_mem first hstate)
      exact varies_of_same hnumber hc hd hfirst hother hne

/-- **Probing decides uniformity.** A box of numbers that is not empty has an answer. It is no
state exactly if two voxels of the box differ, or if only tiles count and some voxel is stored in a
leaf; a state that is found equals that of every voxel of the box. -/
theorem examine?_decides (g : Grid V k) {box : Box} (hbox : box.Nonempty)
    (hnumber : ∀ c ∈ box, (g.read c == g.read c) = true) (tilesOnly : Bool) :
    ∃ answer, g.examine? box tilesOnly = .ok answer ∧
      (answer = none ↔ g.Varies box ∨ tilesOnly = true ∧ g.MeetsLeaf box) ∧
      ∀ state, answer = some state → ∀ c ∈ box, (g.read c == state) = true := by
  have hshared : ∀ state, g.uniform? box tilesOnly = some state →
      ∀ c ∈ box, (g.read c == state) = true := by
    intro state hstate c hc
    have hsame := same_of_uniform? hstate hc
    exact PartialEquivBEq.symm (hsame.symm.beq (hnumber c hc))
  refine ⟨g.uniform? box tilesOnly, ?_, ⟨of_uniform?_eq_none hbox hnumber, ?_⟩, hshared⟩
  · rw [examine?, Box.isEmpty_eq_false.mpr hbox]
    rfl
  · rintro (⟨c, hc, d, hd, hne⟩ | ⟨rfl, hleaf⟩)
    · cases hfound : g.uniform? box tilesOnly with
      | none => rfl
      | some state =>
        have hcd : (g.read c == g.read d) = true := PartialEquivBEq.trans
          (hshared state hfound c hc) (PartialEquivBEq.symm (hshared state hfound d hd))
        rw [hcd] at hne
        cases hne
    · exact uniform?_of_meetsLeaf hleaf

/-- A box half in a tile and half in a leaf that holds the same number there: its voxels have a
common state, but not where only tiles count. -/
theorem examine?_decides_of_tile_and_leaf :
    let g : Grid Float 1 :=
      ((Grid.empty 0.0).fill (Box.ofBlock 1 ⟨-1, 0, 0⟩) ⟨2.5, true⟩).write ⟨0, 1, 0⟩ ⟨2.5, true⟩
    let box : Box := ⟨⟨-1, 1, 0⟩, ⟨0, 1, 0⟩⟩
    box.Nonempty ∧ (∀ c ∈ box, (g.read c == g.read c) = true) ∧ ∀ tilesOnly,
      ∃ answer, g.examine? box tilesOnly = .ok answer ∧
        (answer = none ↔ g.Varies box ∨ tilesOnly = true ∧ g.MeetsLeaf box) ∧
        ∀ state, answer = some state → ∀ c ∈ box, (g.read c == state) = true := by
  intro g box
  have hbox : box.Nonempty := by decide
  have hlisted : ∀ c ∈ box.coords, (g.read c == g.read c) = true := by decide +kernel
  have hnumber : ∀ c ∈ box, (g.read c == g.read c) = true := fun c hc =>
    hlisted c (Box.mem_coords.mpr hc)
  exact ⟨hbox, hnumber, examine?_decides g hbox hnumber⟩

end SparseVoxel.Grid

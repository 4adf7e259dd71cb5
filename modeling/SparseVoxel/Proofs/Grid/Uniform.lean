import SparseVoxel.Grid.Uniform
import SparseVoxel.Proofs.Grid.Stored
import SparseVoxel.Proofs.Lists
import SparseVoxel.Proofs.Voxel

/-!
# What a uniform box says about its voxels

When `Grid.uniform?` finds a state, every voxel of the box reads as that state, up to the equality
of values as numbers (`same_of_uniform?`); where that equality is the usual one, every voxel has
the state itself (`read_of_uniform?`).

The answer is computed from the stored blocks alone. That it also covers the voxels of absent
blocks rests on a count: the parts of the box in distinct blocks have no voxel in common, so if
they make up the volume of the box then no block of it is absent (`stored_of_covered`).
-/

namespace SparseVoxel

/-! ## Counting over blocks -/

/-- The parts of a box in distinct blocks together have as many voxels as the box has in these
blocks. -/
theorem Box.sum_volume_inBlock (b : Box) (k : Nat) {keys : List Coord} (hkeys : keys.Nodup) :
    keys.foldr (fun key n => (b.inBlock k key).volume + n) 0 =
      b.coords.countP fun c => decide (blockKey k c ∈ keys) := by
  induction keys with
  | nil => simp
  | cons key keys ih =>
    obtain ⟨hnot, hkeys⟩ := List.nodup_cons.mp hkeys
    rw [List.foldr_cons, ih hkeys, volume_inBlock, countP_or_of_disjoint]
    · exact List.countP_congr fun c _ => by simp
    · intro c _ hc
      rw [beq_iff_eq] at hc
      rw [decide_eq_false_iff_not, hc]
      exact hnot

namespace Grid

variable {V : Type} {k : Nat}

/-- When the stored blocks make up the volume of a box, no block of the box is absent. -/
theorem stored_of_covered {g : Grid V k} {box : Box}
    (h : box.volume ≤ (g.storedKeys box).foldr (fun key n => (box.inBlock k key).volume + n) 0)
    {c : Coord} (hc : c ∈ box) : Box.blockKey k c ∈ g.storedKeys box := by
  rw [Box.sum_volume_inBlock box k (g.nodup_storedKeys box), ← Box.length_coords] at h
  have hall := List.countP_eq_length.mp (Nat.le_antisymm List.countP_le_length h)
  exact of_decide_eq_true (hall c (Box.mem_coords.mpr hc))

variable [BEq V]

theorem sharedState?_same {g : Grid V k} {part : Box} {tilesOnly : Bool} {key : Coord}
    {s : Voxel V} (h : g.sharedState? part tilesOnly key = some s) {c : Coord} (hc : c ∈ part)
    (hkey : Box.blockKey k c = key) : (g.read c).Same s := by
  rw [read, hkey]
  unfold sharedState? at h
  cases hb : g.blockAt key with
  | tile state =>
    rw [hb] at h
    exact Or.inl (Option.some.inj h)
  | leaf cells =>
    simp only [hb] at h
    split at h
    · cases h
    · split at h
      · cases h
      · next first rest hreads =>
        split at h
        · next hall =>
          cases h
          rw [← hreads, List.all_eq_true] at hall
          exact Or.inr (hall _ (List.mem_map_of_mem (Box.mem_coords.mpr hc)))
        · cases h

variable [PartialEquivBEq V]

/-- Every voxel of a uniform box reads as the state that is found, up to equality as numbers. -/
theorem same_of_uniform? {g : Grid V k} {box : Box} {tilesOnly : Bool} {s : Voxel V}
    (h : g.uniform? box tilesOnly = some s) {c : Coord} (hc : c ∈ box) : (g.read c).Same s := by
  have habsent : Box.blockKey k c ∉ g.storedKeys box → g.read c = g.unset := fun hnot =>
    read_of_not_stored (Bool.eq_false_iff.mpr fun hs => hnot ((blockKey_mem_storedKeys hc).mpr hs))
  simp only [uniform?] at h
  split at h
  · cases h
  · next hstates =>
    cases h
    refine Or.inl (habsent fun hmem => ?_)
    obtain ⟨state, hstate, -⟩ := mem_of_mapM_eq_some hstates hmem
    cases hstate
  · next first rest hstates =>
    split at h
    · next hall =>
      have hstored : Box.blockKey k c ∈ g.storedKeys box → (g.read c).Same first := by
        intro hmem
        obtain ⟨state, hstate, hshared⟩ := mem_of_mapM_eq_some hstates hmem
        have hread := sharedState?_same hshared (Box.mem_inBlock.mpr ⟨hc, rfl⟩) rfl
        rcases List.mem_cons.mp hstate with rfl | hrest
        · exact hread
        · exact hread.trans (Or.inr (PartialEquivBEq.symm (List.all_eq_true.mp hall _ hrest)))
      split at h
      · split at h
        · next hunset =>
          cases h
          by_cases hmem : Box.blockKey k c ∈ g.storedKeys box
          · exact (hstored hmem).trans (Or.inr hunset)
          · exact Or.inl (habsent hmem)
        · cases h
      · next hcovered =>
        cases h
        exact hstored (stored_of_covered (Nat.le_of_not_lt hcovered) hc)
    · cases h

/-- Where values are equal only when they are the same, every voxel of a uniform box has the state
that is found. -/
theorem read_of_uniform? [LawfulBEq V] {g : Grid V k} {box : Box} {tilesOnly : Bool}
    {s : Voxel V} (h : g.uniform? box tilesOnly = some s) {c : Coord} (hc : c ∈ box) :
    g.read c = s :=
  Voxel.eq_of_same (same_of_uniform? h hc)

end Grid

end SparseVoxel

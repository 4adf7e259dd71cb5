import Mathlib.Data.List.Perm.Basic
import SparseVoxel.Resampler.Region

/-!
# Partitions of a box into regions

`Partitions parts whole` says that no voxel lies in two of the regions and that together they have
the voxels of the whole. The order of the regions does not matter (`Partitions.perm`), and a region
may be replaced by its halves (`Partitions.halve`) or by parts of these (`Partitions.join`):
halving cuts a region at a plane, which leaves each voxel in one of the halves
(`Region.split?_shares`).
-/

namespace SparseVoxel

/-! ## Halves -/

/-- A cut leaves each voxel of a box on one side of it. -/
theorem Box.mem_below_or_above {b : Box} {axis : Axis} {bound : Int}
    (h : b.lo.get axis ≤ bound ∧ bound ≤ b.hi.get axis) (c : Coord) :
    (c ∈ b.below axis bound ↔ c ∈ b ∧ c.get axis < bound) ∧
      (c ∈ b.above axis bound ↔ c ∈ b ∧ bound ≤ c.get axis) := by
  obtain ⟨hlo, hhi⟩ := h
  constructor
  · constructor
    · rintro ⟨hx, hy, hz⟩
      cases axis <;> simp only [below, Vec3.get, Vec3.set] at * <;>
        exact ⟨⟨by omega, by omega, by omega⟩, by omega⟩
    · rintro ⟨⟨hx, hy, hz⟩, hc⟩
      cases axis <;> simp only [below, Vec3.get, Vec3.set] at * <;>
        exact ⟨by simp only; omega, by simp only; omega, by simp only; omega⟩
  · constructor
    · rintro ⟨hx, hy, hz⟩
      cases axis <;> simp only [above, Vec3.get, Vec3.set] at * <;>
        exact ⟨⟨by omega, by omega, by omega⟩, by omega⟩
    · rintro ⟨⟨hx, hy, hz⟩, hc⟩
      cases axis <;> simp only [above, Vec3.get, Vec3.set] at * <;>
        exact ⟨by simp only; omega, by simp only; omega, by simp only; omega⟩

/-- The sides of a cut share out the voxels of a box. -/
theorem Box.below_above_shares {b : Box} {axis : Axis} {bound : Int}
    (h : b.lo.get axis ≤ bound ∧ bound ≤ b.hi.get axis) :
    (∀ c, c ∈ b ↔ c ∈ b.below axis bound ∨ c ∈ b.above axis bound) ∧
      ∀ c, c ∈ b.below axis bound → c ∉ b.above axis bound := by
  have hside := Box.mem_below_or_above h
  constructor
  · intro c
    rw [(hside c).1, (hside c).2, ← and_or_left]
    exact ⟨fun hc => ⟨hc, Int.lt_or_le _ _⟩, And.left⟩
  · intro c hlower hupper
    have hlt := ((hside c).1.mp hlower).2
    have hge := ((hside c).2.mp hupper).2
    omega

namespace Region

/-- Halves that have the voxels of a region between them and none in common. -/
structure Halves.Shares {r : Region} (h : Halves r) : Prop where
  mem_or : ∀ c, c ∈ r.box ↔ c ∈ h.lower.box ∨ c ∈ h.upper.box
  not_both : ∀ c, c ∈ h.lower.box → c ∉ h.upper.box

/-- Halving a region on a block boundary shares out its voxels. -/
theorem split?_shares {r : Region} {k : Nat} {h : Halves r} (hs : r.split? k = some h) :
    h.Shares := by
  unfold split? at hs
  split at hs
  · cases hs
  · next lower upper hboxes =>
    cases hs
    unfold Box.split? at hboxes
    simp only at hboxes
    split at hboxes
    · cases hboxes
    · next hne =>
      cases hboxes
      have hspan := Box.spans_nonneg r.nonempty k (r.box.longestAxis k)
      have hcut := Box.cut_bounds (b := r.box) k (r.box.longestAxis k) (by omega)
      obtain ⟨hor, hnot⟩ := Box.below_above_shares (b := r.box) ⟨Int.le_of_lt hcut.1, hcut.2⟩
      exact ⟨hor, hnot⟩

/-- Regions without a common voxel, one of them replaced by its halves. -/
theorem Halves.Shares.pairwise {r : Region} {halves : r.Halves} (hshares : halves.Shares)
    {rest : List Region} (h : (r :: rest).Pairwise fun a b => ∀ c, c ∈ a.box → c ∉ b.box) :
    (halves.upper :: halves.lower :: rest).Pairwise fun a b => ∀ c, c ∈ a.box → c ∉ b.box := by
  obtain ⟨hr, hrest⟩ := List.pairwise_cons.mp h
  refine List.pairwise_cons.mpr ⟨?_, List.pairwise_cons.mpr ⟨?_, hrest⟩⟩
  · intro a ha c hc
    rcases List.mem_cons.mp ha with rfl | ha
    · exact fun hlower => hshares.not_both c hlower hc
    · exact hr a ha c ((hshares.mem_or c).mpr (Or.inr hc))
  · exact fun a ha c hc => hr a ha c ((hshares.mem_or c).mpr (Or.inl hc))

end Region

/-! ## Partitions -/

/-- Regions that share out the voxels of a box. -/
structure Partitions (parts : List Region) (whole : Box) : Prop where
  disjoint : parts.Pairwise fun a b => ∀ c, c ∈ a.box → c ∉ b.box
  cover : ∀ c, c ∈ whole ↔ ∃ r ∈ parts, c ∈ r.box

namespace Partitions

variable {parts parts' : List Region} {whole : Box}

/-- A box that is not empty is its own only part. -/
theorem single (h : whole.Nonempty) : Partitions [⟨whole, h⟩] whole where
  disjoint := List.pairwise_singleton _ _
  cover c := by simp

theorem perm (h : Partitions parts whole) (hperm : parts.Perm parts') :
    Partitions parts' whole where
  disjoint := (hperm.pairwise_iff fun hab c hc hc' => hab c hc' hc).mp h.disjoint
  cover c := by
    rw [h.cover]
    exact exists_congr fun r => and_congr_left fun _ => hperm.mem_iff

theorem halve {r : Region} {halves : r.Halves} (hshares : halves.Shares)
    (h : Partitions (r :: parts) whole) :
    Partitions (halves.upper :: halves.lower :: parts) whole where
  disjoint := hshares.pairwise h.disjoint
  cover c := by
    rw [h.cover]
    simp only [List.mem_cons, exists_eq_or_imp, hshares.mem_or c]
    rw [← or_assoc, or_comm (a := c ∈ halves.lower.box)]

/-- Parts of the halves of a region are parts of the region. -/
theorem join {r : Region} {halves : r.Halves} (hshares : halves.Shares)
    (hupper : Partitions parts halves.upper.box) (hlower : Partitions parts' halves.lower.box) :
    Partitions (parts ++ parts') r.box where
  disjoint := by
    refine List.pairwise_append.mpr ⟨hupper.disjoint, hlower.disjoint, ?_⟩
    intro a ha b hb c hc hc'
    have hu := (hupper.cover c).mpr ⟨a, ha, hc⟩
    exact hshares.not_both c ((hlower.cover c).mpr ⟨b, hb, hc'⟩) hu
  cover c := by
    rw [hshares.mem_or, hlower.cover, hupper.cover, or_comm]
    simp only [List.mem_append, or_and_right, exists_or]

end Partitions

end SparseVoxel

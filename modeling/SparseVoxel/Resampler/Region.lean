import SparseVoxel.Box.Halving

/-!
# Regions

A `Region` is a box that holds at least one voxel. Halving a region gives two regions that share
out its voxels, so the weight of a list of pending regions goes down both when a region is
finished and when it is replaced by its halves.
-/

namespace SparseVoxel

/-- A box with at least one voxel. -/
structure Region where
  box : Box
  nonempty : box.Nonempty

namespace Region

/-- The number of voxels. -/
def volume (r : Region) : Nat :=
  r.box.volume

theorem volume_pos (r : Region) : 0 < r.volume :=
  Box.volume_pos r.nonempty

/-- Two regions that share out the voxels of a region. -/
structure Halves (r : Region) where
  lower : Region
  upper : Region
  volume_eq : lower.volume + upper.volume = r.volume

/-- The halves of a region on a block boundary, unless it lies in one block. -/
def split? (r : Region) (k : Nat) : Option (Halves r) :=
  match h : r.box.split? k with
  | none => none
  | some (lower, upper) =>
    have facts := Box.split_volume r.nonempty h
    some ⟨⟨lower, facts.1⟩, ⟨upper, facts.2.1⟩, facts.2.2⟩

/-- The region of a box, if it has a voxel. -/
def ofBox? (b : Box) : Option Region :=
  if h : b.Nonempty then some ⟨b, h⟩ else none

theorem ofBox?_eq_some {b : Box} (h : b.Nonempty) : ofBox? b = some ⟨b, h⟩ :=
  dif_pos h

/-- What a list of pending regions weighs: as many steps as they may still take. -/
def weight (pending : List Region) : Nat :=
  pending.foldr (fun r n => 2 * r.volume - 1 + n) 0

theorem weight_rest_lt (r : Region) (rest : List Region) : weight rest < weight (r :: rest) := by
  have := r.volume_pos
  simp only [weight, List.foldr_cons]
  omega

theorem weight_halves_lt (r : Region) (h : Halves r) (rest : List Region) :
    weight (h.upper :: h.lower :: rest) < weight (r :: rest) := by
  have hl := h.lower.volume_pos
  have hu := h.upper.volume_pos
  have he := h.volume_eq
  simp only [weight, List.foldr_cons]
  omega

end Region

end SparseVoxel

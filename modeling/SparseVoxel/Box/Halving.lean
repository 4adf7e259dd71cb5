import SparseVoxel.Box.Blocks
import SparseVoxel.Holding

/-!
# Halving a box on a block boundary

A box that spans several blocks is cut where two of them meet, on the axis that crosses the most
boundaries. The counts of boundaries are compared as they stand in one array, which rounds them
where some but not all need the 64th bit for their size (`comparable`). `split_volume` says that
halving a box that is not empty shares out its voxels, both halves getting some, which is why
repeated halving ends.
-/

namespace SparseVoxel.Box

/-- How many block boundaries the box crosses on each axis. -/
def spans (b : Box) (k : Nat) : Vec3 Int :=
  b.hi.zipWith (fun h l => blockIndex k h - blockIndex k l) b.lo

/-- Three counts as they are compared when they stand in one array. -/
def comparable (s : Vec3 Int) : Vec3 Int :=
  match Holding.ofInts s.toList with
  | .words | .separate => s
  | .reals => s.map fun n => Binary64.integer Dyadic.truncate (Binary64.ofInt n)

/-- The first axis with the most crossed boundaries. -/
def longestAxis (b : Box) (k : Nat) : Axis :=
  let s := comparable (b.spans k)
  if s.y ≤ s.x then (if s.z ≤ s.x then .x else .z) else (if s.z ≤ s.y then .y else .z)

/-- The least coordinate of the upper half: the block boundary nearest to the middle. -/
def cut (b : Box) (k : Nat) (axis : Axis) : Int :=
  blockStart k ((blockIndex k (b.lo.get axis) + blockIndex k (b.hi.get axis) + 1) / 2)

/-- The part below a cut. -/
def below (b : Box) (axis : Axis) (bound : Int) : Box :=
  ⟨b.lo, b.hi.set axis (bound - 1)⟩

/-- The part from a cut on. -/
def above (b : Box) (axis : Axis) (bound : Int) : Box :=
  ⟨b.lo.set axis bound, b.hi⟩

/-- Halves the box on a block boundary of its longest axis, unless it lies in one block. -/
def split? (b : Box) (k : Nat) : Option (Box × Box) :=
  let axis := b.longestAxis k
  if (b.spans k).get axis = 0 then none
  else
    let c := b.cut k axis
    some (b.below axis c, b.above axis c)

/-- A box that is not empty crosses no negative number of boundaries. -/
theorem spans_nonneg {b : Box} (h : b.Nonempty) (k : Nat) (axis : Axis) :
    0 ≤ (b.spans k).get axis := by
  obtain ⟨hx, hy, hz⟩ := h
  cases axis <;> simp only [spans, Vec3.get, Vec3.zipWith]
  · have := blockIndex_mono (k := k) hx; omega
  · have := blockIndex_mono (k := k) hy; omega
  · have := blockIndex_mono (k := k) hz; omega

/-- The cut lies strictly inside the box on an axis that crosses a boundary. -/
theorem cut_bounds {b : Box} (k : Nat) (axis : Axis) (h : 0 < (b.spans k).get axis) :
    b.lo.get axis < b.cut k axis ∧ b.cut k axis ≤ b.hi.get axis := by
  have hpos := natCast_edge_pos k
  have hspan : b.lo.get axis / edge k < b.hi.get axis / edge k := by
    cases axis <;> simp only [spans, Vec3.get, Vec3.zipWith, blockIndex_eq_ediv] at h ⊢ <;> omega
  simp only [cut, blockStart_eq_mul, blockIndex_eq_ediv]
  generalize b.lo.get axis = l at *
  generalize b.hi.get axis = r at *
  have hm : l / edge k + 1 ≤ (l / edge k + r / edge k + 1) / 2 ∧
      (l / edge k + r / edge k + 1) / 2 ≤ r / edge k := by omega
  constructor
  · exact Int.lt_of_lt_of_le (Int.lt_ediv_add_one_mul_self l hpos)
      (Int.mul_le_mul_of_nonneg_right hm.1 (Int.le_of_lt hpos))
  · exact Int.le_trans (Int.mul_le_mul_of_nonneg_right hm.2 (Int.le_of_lt hpos))
      (Int.ediv_mul_le r (Int.ne_of_gt hpos))

/-- A box that is not empty has a voxel. -/
theorem volume_pos {b : Box} (h : b.Nonempty) : 0 < b.volume := by
  obtain ⟨hx, hy, hz⟩ := h
  simp only [volume, dim, Vec3.zipWith]
  refine Nat.mul_pos (Nat.mul_pos ?_ ?_) ?_ <;> omega

/-- Cutting inside a box leaves both parts nonempty and shares out its voxels. -/
theorem below_above {b : Box} (h : b.Nonempty) (axis : Axis) {c : Int}
    (hc : b.lo.get axis < c ∧ c ≤ b.hi.get axis) :
    (b.below axis c).Nonempty ∧ (b.above axis c).Nonempty ∧
      (b.below axis c).volume + (b.above axis c).volume = b.volume := by
  obtain ⟨hx, hy, hz⟩ := h
  cases axis <;> simp only [Vec3.get] at hc <;> obtain ⟨hlo, hhi⟩ := hc <;>
    simp only [below, above, Vec3.set, Nonempty, volume, dim, Vec3.zipWith]
  · refine ⟨⟨by omega, hy, hz⟩, ⟨hhi, hy, hz⟩, ?_⟩
    rw [← Nat.add_mul, ← Nat.add_mul]
    congr 2; omega
  · refine ⟨⟨hx, by omega, hz⟩, ⟨hx, hhi, hz⟩, ?_⟩
    rw [← Nat.add_mul, ← Nat.mul_add]
    congr 2; omega
  · refine ⟨⟨hx, hy, by omega⟩, ⟨hx, hy, hhi⟩, ?_⟩
    rw [← Nat.mul_add]
    congr 1; omega

/-- Halving shares out the voxels of a box that is not empty, and both halves get some. -/
theorem split_volume {b : Box} (h : b.Nonempty) {k : Nat} {p : Box × Box}
    (hs : b.split? k = some p) :
    p.1.Nonempty ∧ p.2.Nonempty ∧ p.1.volume + p.2.volume = b.volume := by
  simp only [split?] at hs
  split at hs
  · cases hs
  · next hne =>
    cases hs
    have hspan := spans_nonneg h k (b.longestAxis k)
    exact below_above h _ (cut_bounds k _ (by omega))

end SparseVoxel.Box

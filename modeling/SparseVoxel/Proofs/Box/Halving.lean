import Mathlib.Logic.Relation
import SparseVoxel.Proofs.Box.Enumeration
import SparseVoxel.Proofs.Resampler.Partition
import SparseVoxel.Proofs.Scalar.Rounding

/-!
# Halving a box until it lies in one block

A box is halved as long as it spans several blocks (`Box.split?_eq_none_iff`). The halves share out
its voxels and meet on a block boundary, and each of them has at most half of its blocks on the axis
of the cut, rounded up (`Box.halving_of_split?`). The axis is one that spans the most blocks, unless
the counts of blocks are compared after rounding: then an axis with slightly fewer blocks may be cut
(`Box.longestAxis_of_rounded_counts`). Halves have fewer voxels, so repeated halving ends, and with
blocks of one voxel it ends at single voxels (`Box.halves_on_block_boundary`).
-/

namespace SparseVoxel.Box

variable {b : Box} {k : Nat}

/-! ## The longest axis -/

/-- Whether a box lies in one block. -/
def InOneBlock (b : Box) (k : Nat) : Prop :=
  ∀ c ∈ b, ∀ d ∈ b, blockKey k c = blockKey k d

theorem get_spans (b : Box) (k : Nat) (axis : Axis) : (b.spans k).get axis =
    blockIndex k (b.hi.get axis) - blockIndex k (b.lo.get axis) :=
  Vec3.get_zipWith _ _ _ axis

/-- How many blocks a box spans on an axis. -/
theorem dim_blockRange (b : Box) (k : Nat) (axis : Axis) :
    (b.blockRange k).dim.get axis = ((b.spans k).get axis + 1).toNat := by
  cases axis <;> rfl

theorem spans_eq_zero_iff (h : b.Nonempty) :
    (∀ axis, (b.spans k).get axis = 0) ↔ b.InOneBlock k := by
  constructor
  · intro hzero
    have hkey : ∀ c ∈ b, blockKey k c = blockKey k b.lo := by
      refine fun c hc => Vec3.ext_get fun axis => ?_
      obtain ⟨hlo, hhi⟩ := mem_iff_get.mp hc axis
      have hlo := blockIndex_mono (k := k) hlo
      have hhi := blockIndex_mono (k := k) hhi
      have hspan := hzero axis
      rw [get_spans] at hspan
      rw [blockKey, blockKey, Vec3.get_map, Vec3.get_map]
      omega
    exact fun c hc d hd => (hkey c hc).trans (hkey d hd).symm
  · intro hone axis
    have hkey := congrArg (Vec3.get · axis) (hone b.hi (hi_mem h) b.lo (lo_mem h))
    simp only [blockKey, Vec3.get_map] at hkey
    rw [get_spans, hkey, Int.sub_self]

theorem comparable_le_longestAxis (b : Box) (k : Nat) (axis : Axis) :
    (comparable (b.spans k)).get axis ≤ (comparable (b.spans k)).get (b.longestAxis k) := by
  unfold longestAxis
  generalize comparable (b.spans k) = s
  simp only
  split <;> split <;> cases axis <;> simp only [Vec3.get] <;> omega

/-- Counts of at most 64 bits, some of which but not all need the last one. -/
def Mixed (s : Vec3 Int) : Prop :=
  (∀ axis, s.get axis < 2 ^ 64) ∧ (∃ axis, s.get axis < 2 ^ 63) ∧ ∃ axis, 2 ^ 63 ≤ s.get axis

theorem mixed_of_reals {s : Vec3 Int} (h : Holding.ofInts s.toList = .reals) : Mixed s := by
  obtain ⟨hshort, ⟨m, hm, hsigned⟩, n, hn, hunsigned⟩ := Holding.of_ofInts_eq_reals h
  obtain ⟨small, rfl⟩ := Vec3.mem_toList.mp hm
  obtain ⟨large, rfl⟩ := Vec3.mem_toList.mp hn
  simp only [Word.isSigned, Word.isUnsigned, Bool.and_eq_true, decide_eq_true_eq]
    at hshort hsigned hunsigned
  rw [Word.bound64] at *
  refine ⟨fun axis => ?_, ⟨small, by omega⟩, large, by omega⟩
  have := hshort _ (Vec3.mem_toList.mpr ⟨axis, rfl⟩)
  omega

theorem comparable_of_ne_reals {s : Vec3 Int} (h : Holding.ofInts s.toList ≠ .reals) :
    comparable s = s := by
  unfold comparable
  cases hholding : Holding.ofInts s.toList with
  | words => rfl
  | separate => rfl
  | reals => exact absurd hholding h

/-- Counts that are not mixed are compared as they are. -/
theorem comparable_of_not_mixed {s : Vec3 Int} (h : ¬ Mixed s) : comparable s = s :=
  comparable_of_ne_reals (mt mixed_of_reals h)

/-- A count of zero is not compared as the greatest one, unless all counts are zero. -/
theorem eq_zero_of_comparable_le {s : Vec3 Int} (hnonneg : ∀ axis, 0 ≤ s.get axis) {axis : Axis}
    (hmax : ∀ other, (comparable s).get other ≤ (comparable s).get axis)
    (hzero : s.get axis = 0) (other : Axis) : s.get other = 0 := by
  by_cases hholding : Holding.ofInts s.toList = .reals
  · -- some count needs the 64th bit, and it stays positive when it is rounded
    have hcomparable : comparable s =
        s.map fun n => Binary64.integer Dyadic.truncate (Binary64.ofInt n) := by
      rw [comparable, hholding]
    simp only [hcomparable, Vec3.get_map, hzero, Binary64.truncate_ofInt_zero] at hmax
    obtain ⟨hshort, -, large, hlarge⟩ := mixed_of_reals hholding
    have hpos := Binary64.truncate_ofInt_pos (show 2 ^ 53 ≤ s.get large by omega) (hshort large)
    exact absurd (hmax large) (by omega)
  · have hle := hmax other
    have hother := hnonneg other
    rw [comparable_of_ne_reals hholding] at hle
    omega

/-- Only where no axis crosses a boundary, the longest one does not. -/
theorem spans_eq_zero_of_longestAxis (h : b.Nonempty)
    (hzero : (b.spans k).get (b.longestAxis k) = 0) (axis : Axis) : (b.spans k).get axis = 0 :=
  eq_zero_of_comparable_le (spans_nonneg h k) (comparable_le_longestAxis b k) hzero axis

/-- A box that is not empty is left as it is if and only if it lies in one block. -/
theorem split?_eq_none_iff (h : b.Nonempty) : b.split? k = none ↔ b.InOneBlock k := by
  rw [← spans_eq_zero_iff h]
  unfold split?
  simp only [ite_eq_left_iff, reduceCtorEq, imp_false, Decidable.not_not]
  exact ⟨fun hzero => spans_eq_zero_of_longestAxis h hzero, fun hzero => hzero _⟩

/-! ## The halves -/

/-- Two boxes that halve a box on a block boundary of one axis. -/
structure Halving (b : Box) (k : Nat) (axis : Axis) (lower upper : Box) : Prop where
  lower_nonempty : lower.Nonempty
  upper_nonempty : upper.Nonempty
  mem_or : ∀ c, c ∈ b ↔ c ∈ lower ∨ c ∈ upper
  not_both : ∀ c, c ∈ lower → c ∉ upper
  /-- They differ from the box on the axis only and meet at a multiple of the edge. -/
  meet : ∃ i : Int, lower = ⟨b.lo, b.hi.set axis (i * 2 ^ k - 1)⟩ ∧
    upper = ⟨b.lo.set axis (i * 2 ^ k), b.hi⟩
  /-- Each spans at most half of the blocks on the axis, rounded up, and fewer than the box. -/
  blocks : ∀ half, half = lower ∨ half = upper →
    (half.blockRange k).dim.get axis ≤ ((b.blockRange k).dim.get axis + 1) / 2 ∧
      (half.blockRange k).dim.get axis < (b.blockRange k).dim.get axis
  /-- The axis crosses the most boundaries, by the counts as they are compared. -/
  comparable_le : ∀ other,
    (comparable (b.spans k)).get other ≤ (comparable (b.spans k)).get axis
  /-- The axis spans the most blocks, unless the counts are compared after rounding. -/
  longest : ¬ Mixed (b.spans k) → ∀ other,
    (b.blockRange k).dim.get other ≤ (b.blockRange k).dim.get axis

/-- The block that begins at a cut, and the one that ends before it. -/
theorem blockIndex_boundary (k : Nat) (i : Int) :
    blockIndex k (i * edge k) = i ∧ blockIndex k (i * edge k - 1) = i - 1 := by
  have hpos := natCast_edge_pos k
  rw [blockIndex_eq_iff, blockIndex_eq_iff, Int.sub_mul, Int.one_mul]
  omega

theorem natCast_edge (k : Nat) : (edge k : Int) = 2 ^ k := by
  rw [edge]
  rfl

/-- How many boundaries the sides of a cut at a boundary cross. -/
theorem spans_below_above (b : Box) (k : Nat) (axis : Axis) (i : Int) :
    ((b.below axis (i * edge k)).spans k).get axis = i - 1 - blockIndex k (b.lo.get axis) ∧
      ((b.above axis (i * edge k)).spans k).get axis = blockIndex k (b.hi.get axis) - i := by
  obtain ⟨hstart, hend⟩ := blockIndex_boundary k i
  rw [get_spans, get_spans, below, above, Vec3.get_set, Vec3.get_set, hstart, hend]
  exact ⟨rfl, rfl⟩

/-- The halves of a box that spans several blocks. -/
theorem halving_of_split? (h : b.Nonempty) {lower upper : Box}
    (hs : b.split? k = some (lower, upper)) : ∃ axis, b.Halving k axis lower upper := by
  unfold split? at hs
  simp only [Option.ite_none_left_eq_some, Option.some.injEq, Prod.mk.injEq] at hs
  obtain ⟨hne, rfl, rfl⟩ := hs
  have hspan : 0 < (b.spans k).get (b.longestAxis k) := by
    have := spans_nonneg h k (b.longestAxis k)
    omega
  have hlongest := comparable_le_longestAxis b k
  generalize b.longestAxis k = axis at hspan hlongest ⊢
  have hcut := cut_bounds k axis hspan
  obtain ⟨hlower, hupper, -⟩ := below_above h axis hcut
  obtain ⟨hor, hnot⟩ := below_above_shares ⟨hcut.1.le, hcut.2⟩
  rw [cut, blockStart_eq_mul] at *
  generalize hi : (blockIndex k (b.lo.get axis) + blockIndex k (b.hi.get axis) + 1) / 2 = i at *
  obtain ⟨hbelow, habove⟩ := spans_below_above b k axis i
  rw [get_spans] at hspan
  refine ⟨axis, hlower, hupper, hor, hnot, ⟨i, ?_⟩, ?_, hlongest, fun hmixed other => ?_⟩
  · rw [below, above, natCast_edge]
    exact ⟨rfl, rfl⟩
  · rintro half (rfl | rfl)
    · rw [dim_blockRange, dim_blockRange, hbelow, get_spans]
      omega
    · rw [dim_blockRange, dim_blockRange, habove, get_spans]
      omega
  · rw [dim_blockRange, dim_blockRange]
    have hle := hlongest other
    rw [comparable_of_not_mixed hmixed] at hle
    omega

/-! ## Repeated halving -/

/-- A box is one of the two that another one is halved into. -/
def IsHalf (k : Nat) (half b : Box) : Prop :=
  ∃ lower upper, b.split? k = some (lower, upper) ∧ (half = lower ∨ half = upper)

theorem IsHalf.nonempty {half : Box} (hhalf : IsHalf k half b) (h : b.Nonempty) :
    half.Nonempty := by
  obtain ⟨lower, upper, hs, rfl | rfl⟩ := hhalf
  · exact (split_volume h hs).1
  · exact (split_volume h hs).2.1

theorem IsHalf.volume_lt {half : Box} (hhalf : IsHalf k half b) (h : b.Nonempty) :
    half.volume < b.volume := by
  obtain ⟨lower, upper, hs, hor⟩ := hhalf
  obtain ⟨hlower, hupper, hsum⟩ : lower.Nonempty ∧ upper.Nonempty ∧
    lower.volume + upper.volume = b.volume := split_volume h hs
  have hlower := volume_pos hlower
  have hupper := volume_pos hupper
  rcases hor with rfl | rfl <;> omega

/-- Repeated halving of a box that is not empty comes to an end. -/
theorem acc_isHalf (h : b.Nonempty) (k : Nat) : Acc (IsHalf k) b := by
  induction hvolume : b.volume using Nat.strongRecOn generalizing b with
  | ind n ih =>
    refine Acc.intro b fun half hhalf => ?_
    exact ih half.volume (hvolume ▸ hhalf.volume_lt h) (hhalf.nonempty h) rfl

/-- Repeated halving never gives an empty box. -/
theorem nonempty_of_halvings (h : b.Nonempty) {c : Box}
    (hc : Relation.ReflTransGen (fun b half => IsHalf k half b) b c) : c.Nonempty := by
  induction hc with
  | refl => exact h
  | tail _ hhalf ih => exact hhalf.nonempty ih

/-- A block of size exponent zero is a voxel. -/
theorem InOneBlock.lo_eq_hi (h : b.Nonempty) (hone : b.InOneBlock 0) : b.lo = b.hi := by
  have hkey : ∀ c : Coord, blockKey 0 c = c := fun c => Vec3.ext_get fun axis => by
    rw [blockKey, Vec3.get_map, blockIndex_eq_ediv]
    exact Int.ediv_one _
  rw [← hkey b.lo, ← hkey b.hi]
  exact hone b.lo (lo_mem h) b.hi (hi_mem h)

/-- **Halving on block boundaries.** A box that is not empty is left as it is if it lies in one
block, and otherwise halved on one axis. Repeated halving comes to an end at boxes that lie in one
block each, which are single voxels if the blocks are. -/
theorem halves_on_block_boundary (h : b.Nonempty) (k : Nat) :
    (b.split? k = none ↔ b.InOneBlock k) ∧
      (∀ lower upper, b.split? k = some (lower, upper) → ∃ axis, b.Halving k axis lower upper) ∧
      Acc (IsHalf k) b ∧
      ∀ c, Relation.ReflTransGen (fun b half => IsHalf k half b) b c → c.split? k = none →
        c.Nonempty ∧ c.InOneBlock k ∧ (k = 0 → c.lo = c.hi) := by
  refine ⟨split?_eq_none_iff h, fun _ _ => halving_of_split? h, acc_isHalf h k, ?_⟩
  intro c hc hnone
  have hnonempty := nonempty_of_halvings h hc
  have hone := (split?_eq_none_iff hnonempty).mp hnone
  refine ⟨hnonempty, hone, ?_⟩
  rintro rfl
  exact hone.lo_eq_hi hnonempty

/-- A box of which one axis begins in a block below zero. -/
theorem halves_on_block_boundary_of_negative :
    let b : Box := ⟨⟨-13, 0, 0⟩, ⟨40, 7, 7⟩⟩
    b.Nonempty ∧ ∃ axis, b.Halving 3 axis ⟨⟨-13, 0, 0⟩, ⟨15, 7, 7⟩⟩ ⟨⟨16, 0, 0⟩, ⟨40, 7, 7⟩⟩ := by
  intro b
  have h : b.Nonempty := by decide
  have hs : b.split? 3 = some (⟨⟨-13, 0, 0⟩, ⟨15, 7, 7⟩⟩, ⟨⟨16, 0, 0⟩, ⟨40, 7, 7⟩⟩) := by
    decide +kernel
  exact ⟨h, (halves_on_block_boundary h 3).2.1 _ _ hs⟩

/-- Two axes with counts that differ by one and are rounded to the same number: the one that spans
fewer blocks is cut. -/
theorem longestAxis_of_rounded_counts :
    let b : Box := ⟨⟨0, 0, 0⟩, ⟨9223372036854775808, 9223372036854775809, 0⟩⟩
    b.Nonempty ∧
      b.split? 0 = some (⟨⟨0, 0, 0⟩, ⟨4611686018427387903, 9223372036854775809, 0⟩⟩,
        ⟨⟨4611686018427387904, 0, 0⟩, ⟨9223372036854775808, 9223372036854775809, 0⟩⟩) ∧
      (b.blockRange 0).dim.x < (b.blockRange 0).dim.y := by
  decide +kernel

end SparseVoxel.Box

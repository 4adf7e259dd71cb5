import Mathlib.Data.Int.Bitwise
import SparseVoxel.Grid.Block
import SparseVoxel.Proofs.Machine

/-!
# Enumerations and addresses

The enumeration of a box and that of its blocks list what they should, once and in lexicographic
order (`Lists`). The parts of a box in its blocks have no voxel in common and make up the box
(`SharedOut`). The address of a voxel is the key of its block and the offset there (`IsAddress`):
there is one for every coordinate, below zero as above (`addressed`). Keys come from shifting
coordinates and offsets from masking them, since the edge of a block is a power of two
(`blockOffset_eq_land`).

`enumeration_and_addresses` joins these statements. A list of coordinates that is kept in an array
is the enumeration exactly if all coordinates are words with a sign, given memory for it; a single
voxel that is none is refused (`coords?_of_large_word`).
-/

namespace SparseVoxel

/-- The offset in a block is what a mask leaves of the coordinate. -/
theorem blockOffset_eq_land (k : Nat) (c : Int) :
    (blockOffset k c : Int) = Int.land c ((Box.edge k : Int) - 1) := by
  have hedge : Box.edge k = 2 ^ k := rfl
  have hpos := Nat.two_pow_pos k
  have hmask : ((Box.edge k : Int) - 1) = ((2 ^ k - 1 : Nat) : Int) := by
    rw [hedge]
    omega
  rw [blockOffset, hmask, hedge]
  cases c with
  | ofNat n =>
    show (((n : Int) % (2 ^ k : Nat)).toNat : Int) = ((n &&& (2 ^ k - 1) : Nat) : Int)
    rw [Nat.and_two_pow_sub_one_eq_mod, ← Int.natCast_mod, Int.toNat_natCast]
  | negSucc n =>
    -- the bits of a number below zero are the opposites of those of its predecessor's size
    have hlt : n % 2 ^ k < 2 ^ k := Nat.mod_lt n hpos
    have hmod : (Int.negSucc n % (2 ^ k : Nat)).toNat = 2 ^ k - (n % 2 ^ k + 1) := by
      rw [Int.negSucc_emod n (Int.natCast_pos.mpr hpos), ← Int.natCast_mod]
      omega
    have hdiff : 2 ^ k - (n % 2 ^ k + 1) = Nat.ldiff (2 ^ k - 1) n := by
      refine Nat.eq_of_testBit_eq fun i => ?_
      rw [Nat.testBit_two_pow_sub_succ hlt, Nat.testBit_mod_two_pow, Nat.testBit_ldiff,
        Nat.testBit_two_pow_sub_one]
      cases decide (i < k) <;> rfl
    rw [hmod, hdiff]
    rfl

namespace Box

/-! ## Lists -/

/-- A list of the coordinates with a property, each of them once, in lexicographic order, the x axis
first. -/
structure Lists (cs : List Coord) (P : Coord → Prop) : Prop where
  mem_iff : ∀ c, c ∈ cs ↔ P c
  nodup : cs.Nodup
  ordered : cs.Pairwise fun c d => compare c d = .lt

theorem contains?_toList (b : Box) (c : Coord) :
    b.contains? c.toList = .ok (decide (c ∈ b)) := by
  have hmem : c ∈ b ↔ (b.lo.x ≤ c.x ∧ c.x ≤ b.hi.x) ∧ (b.lo.y ≤ c.y ∧ c.y ≤ b.hi.y) ∧
      (b.lo.z ≤ c.z ∧ c.z ≤ b.hi.z) := Iff.rfl
  simp only [contains?, Vec3.toList, List.zip_cons_cons, List.zip_nil_right, contains?.go, hmem]
  by_cases hx : b.lo.x ≤ c.x ∧ c.x ≤ b.hi.x
  · by_cases hy : b.lo.y ≤ c.y ∧ c.y ≤ b.hi.y
    · by_cases hz : b.lo.z ≤ c.z ∧ c.z ≤ b.hi.z
      · simp [hx, hy, hz]
      · simp [hx, hy, hz]
    · simp [hx, hy]
  · simp [hx]

theorem lists_coords (b : Box) : Lists b.coords fun c => b.contains? c.toList = .ok true where
  mem_iff c := by
    rw [mem_coords, contains?_toList, Except.ok.injEq, decide_eq_true_eq]
  nodup := nodup_coords b
  ordered := ordered_coords b

theorem lists_blocks {b : Box} (h : b.Nonempty) (k : Nat) :
    Lists (b.blocks k) fun key => ∃ c ∈ b, blockKey k c = key where
  mem_iff _ := mem_blocks.trans (mem_blockRange_iff h)
  nodup := nodup_blocks b k
  ordered := ordered_coords (b.blockRange k)

/-! ## Parts -/

/-- The parts of a box in the blocks that it touches: each of them has a voxel, no two of them have
one in common, and together they have those of the box. -/
structure SharedOut (b : Box) (k : Nat) : Prop where
  inter?_eq : ∀ key ∈ b.blocks k, b.inter? (ofBlock k key) = some (b.inBlock k key)
  nonempty : ∀ key ∈ b.blocks k, (b.inBlock k key).Nonempty
  disjoint : ∀ key ∈ b.blocks k, ∀ key' ∈ b.blocks k, key ≠ key' →
    ∀ c ∈ b.inBlock k key, c ∉ b.inBlock k key'
  mem_iff : ∀ c, c ∈ b ↔ ∃ key ∈ b.blocks k, c ∈ b.inBlock k key

theorem nonempty_inBlock {b : Box} (h : b.Nonempty) {k : Nat} {key : Coord}
    (hkey : key ∈ b.blocks k) : (b.inBlock k key).Nonempty := by
  obtain ⟨c, hc, hck⟩ := exists_mem_of_mem_blockRange h (mem_blocks.mp hkey)
  exact nonempty_of_mem (mem_inBlock.mpr ⟨hc, hck⟩)

theorem sharedOut {b : Box} (h : b.Nonempty) (k : Nat) : b.SharedOut k where
  inter?_eq key hkey := by
    have hpart := isEmpty_eq_false.mpr (nonempty_inBlock h hkey)
    rw [inBlock] at hpart ⊢
    simp only [inter?, hpart, Bool.false_eq_true, if_false]
  nonempty _ hkey := nonempty_inBlock h hkey
  disjoint key _ key' _ hne c hc hc' :=
    hne ((mem_inBlock.mp hc).2.symm.trans (mem_inBlock.mp hc').2)
  mem_iff c := by
    constructor
    · exact fun hc => ⟨blockKey k c, blockKey_mem_blocks hc, mem_inBlock.mpr ⟨hc, rfl⟩⟩
    · rintro ⟨key, -, hc⟩
      exact (mem_inBlock.mp hc).1

/-! ## Addresses -/

/-- The key of a block and an offset in it that lead to a coordinate. -/
structure IsAddress (k : Nat) (c key : Coord) (offset : Vec3 Nat) : Prop where
  lt_edge : ∀ axis, offset.get axis < edge k
  mul_add_eq : ∀ axis, key.get axis * edge k + offset.get axis = c.get axis

theorem IsAddress.unique {k : Nat} {c key : Coord} {offset : Vec3 Nat}
    (h : IsAddress k c key offset) : key = blockKey k c ∧ offset = c.map (blockOffset k) := by
  constructor
  · refine Vec3.ext_get fun axis => ?_
    rw [blockKey, Vec3.get_map, ← h.mul_add_eq axis, blockIndex_mul_add k _ (h.lt_edge axis)]
  · refine Vec3.ext_get fun axis => ?_
    rw [Vec3.get_map, ← h.mul_add_eq axis, blockOffset_mul_add k _ (h.lt_edge axis)]

/-- The address of a coordinate. There is no other one, it is found by shifting and masking, and the
block that it names is the only one with the coordinate. -/
structure Addressed (k : Nat) (c : Coord) : Prop where
  isAddress : IsAddress k c (blockKey k c) (c.map (blockOffset k))
  unique : ∀ key offset, IsAddress k c key offset →
    key = blockKey k c ∧ offset = c.map (blockOffset k)
  shifted : ∀ axis, (blockKey k c).get axis = c.get axis >>> k
  masked : ∀ axis, ((c.map (blockOffset k)).get axis : Int) =
    Int.land (c.get axis) ((edge k : Int) - 1)
  mem_ofBlock_iff : ∀ key, c ∈ ofBlock k key ↔ key = blockKey k c

theorem addressed (k : Nat) (c : Coord) : Addressed k c where
  isAddress := by
    refine ⟨fun axis => ?_, fun axis => ?_⟩
    · rw [Vec3.get_map]
      exact blockOffset_lt k _
    · rw [blockKey, Vec3.get_map, Vec3.get_map]
      exact blockIndex_mul_edge_add k _
  unique _ _ h := h.unique
  shifted axis := Vec3.get_map _ c axis
  masked axis := by
    rw [Vec3.get_map]
    exact blockOffset_eq_land k _
  mem_ofBlock_iff _ := mem_ofBlock.trans eq_comm

/-! ## Main statement -/

/-- **Enumerations and addresses.** The enumeration of a box that is not empty lists the coordinates
that it contains, as many as its volume says, and on the machine of words, given memory for it, it
is the list of coordinates exactly if they are words. The enumeration of its blocks lists the keys
of its voxels, and the blocks share out the box. Every coordinate has one address. -/
theorem enumeration_and_addresses {b : Box} (h : b.Nonempty) (k : Nat) :
    (Lists b.coords (fun c => b.contains? c.toList = .ok true) ∧ b.coords.length = b.volume) ∧
      (Machine.words.reserve? b.dim 8 = .ok () →
        (Machine.words.coords? b = .ok b.coords ↔ b.FitsWords)) ∧
      Lists (b.blocks k) (fun key => ∃ c ∈ b, blockKey k c = key) ∧ b.SharedOut k ∧
      ∀ c, Addressed k c :=
  ⟨⟨lists_coords b, length_coords b⟩, Machine.wordCoords?_eq_coords_iff h, lists_blocks h k,
    sharedOut h k, addressed k⟩

/-- A box on both sides of the origin, in blocks of edge four. -/
theorem enumeration_and_addresses_of_negative :
    let b : Box := ⟨⟨-5, -1, 2⟩, ⟨-3, 0, 2⟩⟩
    b.Nonempty ∧ Machine.words.coords? b = .ok [⟨-5, -1, 2⟩, ⟨-5, 0, 2⟩, ⟨-4, -1, 2⟩, ⟨-4, 0, 2⟩,
        ⟨-3, -1, 2⟩, ⟨-3, 0, 2⟩] ∧
      b.blocks 2 = [⟨-2, -1, 0⟩, ⟨-2, 0, 0⟩, ⟨-1, -1, 0⟩, ⟨-1, 0, 0⟩] ∧
      Lists (b.blocks 2) (fun key => ∃ c ∈ b, blockKey 2 c = key) ∧ b.SharedOut 2 ∧
      Addressed 2 ⟨-5, -1, 2⟩ := by
  intro b
  have h : b.Nonempty := by decide
  have hroom : Machine.words.reserve? b.dim 8 = .ok () :=
    Machine.reserve?_words_iff.mpr (by decide)
  have hlisted : ∀ c ∈ b.coords, ∀ n ∈ c.toList, Word.isSigned Word.bound64 n = true := by decide
  have hwords : b.FitsWords := fun c hc => hlisted c (mem_coords.mpr hc)
  obtain ⟨-, hcoords, hblocks, hshared, haddressed⟩ := enumeration_and_addresses h 2
  exact ⟨h, (hcoords hroom).mpr hwords, by decide, hblocks, hshared, haddressed _⟩

/-- A box of a single voxel that is no word: the coordinate that it contains is not listed. -/
theorem coords?_of_large_word :
    let c : Coord := ⟨9223372036854775808, 0, 0⟩
    let b : Box := ⟨c, c⟩
    b.Nonempty ∧ b.contains? c.toList = .ok true ∧ b.coords = [c] ∧
      Machine.words.reserve? b.dim 8 = .ok () ∧
      Machine.words.coords? b = .error .integerTooLarge := by
  intro c b
  have hroom : Machine.words.reserve? b.dim 8 = .ok () :=
    Machine.reserve?_words_iff.mpr (by decide)
  -- there is one voxel, so it is the coordinate that is refused and not the size of the list
  have hx : Machine.wordRange? b.lo.x b.hi.x = .error .integerTooLarge :=
    Machine.wordRange?_eq_error (Int.le_refl _) (by decide) (by decide)
  have hcoords : Machine.words.coords? b = .error .integerTooLarge := by
    show Machine.wordCoords? b = _
    rw [Machine.wordCoords?, if_neg (by decide), hx]
    rfl
  exact ⟨by decide, rfl, rfl, hroom, hcoords⟩

end Box

end SparseVoxel

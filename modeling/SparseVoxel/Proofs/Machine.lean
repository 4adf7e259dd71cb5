import Mathlib.Tactic.Linarith
import SparseVoxel.Machine
import SparseVoxel.Proofs.Box.Enumeration
import SparseVoxel.Proofs.Outcome
import SparseVoxel.Proofs.Scalar.Rounding

/-!
# Boxes whose coordinates are words

Where all coordinates of a block are words with a sign, its voxels are found where they lie
(`finds_words`). Where there is memory for a list of the coordinates of a box, that list is the
enumeration of the box exactly if they are words (`wordCoords?_eq_coords_iff`), and the same goes
for the boxes in it (`enumeratesIn_words`). The length of an edge is rounded to binary64 on the way;
memory ends long before that makes a difference.
-/

namespace SparseVoxel

namespace Word

theorem isSigned_iff {bound n : Int} : isSigned bound n = true ↔ -bound ≤ n ∧ n < bound := by
  rw [isSigned, Bool.and_eq_true, decide_eq_true_eq, decide_eq_true_eq]

/-- A factor of a word is a word. -/
theorem isSigned_of_mul {n : Int} {e : Nat} (he : 0 < e) (h : isSigned bound64 (n * e) = true) :
    isSigned bound64 n = true := by
  rw [isSigned_iff] at h ⊢
  have he : (1 : Int) ≤ e := by omega
  rcases le_total 0 n with hn | hn
  · have : n ≤ n * e := le_mul_of_one_le_right hn he
    constructor
    · simp only [bound64]
      omega
    · omega
  · have : n * e ≤ n := by nlinarith
    constructor
    · omega
    · simp only [bound64]
      omega

theorem isSigned_wrapSigned (n : Int) : isSigned bound64 (wrapSigned n) = true := by
  rw [isSigned_iff]
  simp only [wrapSigned, bound64]
  omega

end Word

/-- Every coordinate of a box is a word with a sign. -/
def Box.FitsWords (b : Box) : Prop :=
  ∀ c ∈ b, ∀ n ∈ c.toList, Word.isSigned Word.bound64 n = true

theorem Box.FitsWords.wrapSigned {b : Box} (h : b.FitsWords) {c : Coord} (hc : c ∈ b) :
    c.map Word.wrapSigned = c := by
  have hwords := h c hc
  simp only [Vec3.toList, List.mem_cons, List.not_mem_nil, or_false, forall_eq_or_imp,
    forall_eq] at hwords
  exact Vec3.ext (Word.wrapSigned_of_isSigned hwords.1) (Word.wrapSigned_of_isSigned hwords.2.1)
    (Word.wrapSigned_of_isSigned hwords.2.2)

namespace Machine

theorem wordLocate?_of_fits {k : Nat} {key : Coord} (h : (Box.ofBlock k key).FitsWords) :
    wordLocate? k key = .ok (Vec3.map Word.wrapSigned) := by
  have hlo := h _ (Box.lo_mem (Box.nonempty_ofBlock k key))
  refine wordLocate?_of_isSigned fun n hn => ?_
  refine Word.isSigned_of_mul (Box.edge_pos k) (hlo _ ?_)
  simp only [Vec3.toList, List.mem_cons, List.not_mem_nil, or_false] at hn
  rcases hn with rfl | rfl | rfl <;> simp [Box.ofBlock, Vec3.map, Vec3.toList]

/-- The machine finds the voxels of the leaf under a key where they lie. -/
def Finds (machine : Machine) (k : Nat) (key : Coord) : Prop :=
  ∃ place, machine.locate? k key = .ok place ∧ ∀ c ∈ Box.ofBlock k key, place c = c

theorem finds_words {k : Nat} {key : Coord} (h : (Box.ofBlock k key).FitsWords) :
    words.Finds k key :=
  ⟨_, wordLocate?_of_fits h, fun _ hc => h.wrapSigned hc⟩

theorem checkBytes_eq_ok_iff {n : Nat} : checkBytes n = .ok () ↔ n < memoryBytes := by
  have hmemory : (memoryBytes : Int) ≤ Word.bound64 := by decide
  unfold checkBytes
  split
  · exact iff_of_false nofun (by omega)
  · split
    · next h => exact iff_of_false nofun (Nat.not_lt.mpr h)
    · next h => exact iff_of_true rfl (Nat.not_le.mp h)

theorem reserve?_words_iff {edges : Vec3 Nat} {entry : Nat} :
    words.reserve? edges entry = .ok () ↔ bytes edges entry < memoryBytes :=
  checkBytes_eq_ok_iff

/-! ## Lists of coordinates -/

/-- What is listed as words consists of words. -/
theorem isSigned_of_wordRange? {lo hi : Int} {ns : List Int} (h : wordRange? lo hi = .ok ns) :
    ∀ n ∈ ns, Word.isSigned Word.bound64 n = true := by
  unfold wordRange? at h
  split at h
  · split at h
    · cases h
    · split at h
      · cases h
        exact fun n hn => by cases hn
      · obtain ⟨-, -, h⟩ := bind_eq_ok.mp h
        split at h
        · cases h
        · cases h
          intro n hn
          obtain ⟨m, -, rfl⟩ := List.mem_map.mp hn
          exact Word.isSigned_wrapSigned m
  · cases h

theorem isSigned_of_wordCoords? {b : Box} {cs : List Coord} (h : wordCoords? b = .ok cs) :
    ∀ c ∈ cs, ∀ n ∈ c.toList, Word.isSigned Word.bound64 n = true := by
  unfold wordCoords? at h
  split at h
  · cases h
    exact fun c hc => by cases hc
  · obtain ⟨xs, hxs, h⟩ := bind_eq_ok.mp h
    obtain ⟨ys, hys, h⟩ := bind_eq_ok.mp h
    obtain ⟨zs, hzs, h⟩ := bind_eq_ok.mp h
    obtain ⟨-, -, h⟩ := bind_eq_ok.mp h
    cases h
    intro c hc n hn
    simp only [List.mem_flatMap, List.mem_map] at hc
    obtain ⟨x, hx, y, hy, z, hz, rfl⟩ := hc
    simp only [Vec3.toList, List.mem_cons, List.not_mem_nil, or_false] at hn
    rcases hn with rfl | rfl | rfl
    · exact isSigned_of_wordRange? hxs _ hx
    · exact isSigned_of_wordRange? hys _ hy
    · exact isSigned_of_wordRange? hzs _ hz

/-- Where there is memory for a list of integers, which ends before their number is rounded, only
the first two entries are looked at. -/
theorem wordRange?_of_lt {lo hi : Int} (hle : lo ≤ hi)
    (hroom : 8 * (hi - lo + 1).toNat < memoryBytes) :
    wordRange? lo hi =
      if !Word.isSigned Word.bound64 lo || (lo < hi && !Word.isSigned Word.bound64 (lo + 1)) then
        .error .integerTooLarge
      else .ok ((Box.range lo hi).map Word.wrapSigned) := by
  obtain ⟨n, hn⟩ := Int.eq_ofNat_of_zero_le (show 0 ≤ hi - lo + 1 by omega)
  rw [hn, Int.toNat_natCast] at hroom
  have hmemory : (memoryBytes : Int) ≤ Word.bound64 := by decide
  have hlimit : memoryBytes ≤ 2 ^ 53 := by decide
  obtain ⟨count, hcount, hfloor⟩ := Binary64.read_ofInt_of_lt (n := n) (by omega) (by omega)
  rw [wordRange?, hn, hcount]
  simp only [hfloor, Int.toNat_natCast]
  rw [if_neg (by omega), if_neg (by omega), checkBytes_eq_ok_iff.mpr hroom]
  rfl

/-- Words are listed as they are. -/
theorem wordRange?_eq_range {lo hi : Int} (hle : lo ≤ hi)
    (hroom : 8 * (hi - lo + 1).toNat < memoryBytes)
    (hwords : ∀ i, lo ≤ i → i ≤ hi → Word.isSigned Word.bound64 i = true) :
    wordRange? lo hi = .ok (Box.range lo hi) := by
  have hsigned : ¬ (!Word.isSigned Word.bound64 lo ||
      (decide (lo < hi) && !Word.isSigned Word.bound64 (lo + 1))) = true := by
    rw [hwords lo (Int.le_refl lo) hle]
    simp only [Bool.not_true, Bool.false_or, Bool.and_eq_true, decide_eq_true_eq,
      Bool.not_eq_true', not_and, Bool.not_eq_false]
    exact fun hlt => hwords (lo + 1) (by omega) hlt
  have hmap : (Box.range lo hi).map Word.wrapSigned = Box.range lo hi := by
    refine (List.map_congr_left fun i hi => ?_).trans (List.map_id _)
    obtain ⟨hlo, hhi⟩ := Box.mem_range.mp hi
    exact Word.wrapSigned_of_isSigned (hwords i hlo hhi)
  rw [wordRange?_of_lt hle hroom, if_neg hsigned, hmap]

/-- A list whose first entry is no word is refused. -/
theorem wordRange?_eq_error {lo hi : Int} (hle : lo ≤ hi)
    (hroom : 8 * (hi - lo + 1).toNat < memoryBytes)
    (hlo : Word.isSigned Word.bound64 lo = false) :
    wordRange? lo hi = .error .integerTooLarge := by
  rw [wordRange?_of_lt hle hroom, hlo]
  rfl

theorem bytes_dim {b : Box} (h : b.Nonempty) (entry : Nat) :
    bytes b.dim entry = entry * b.dim.x * b.dim.y * b.dim.z := by
  have hx := Nat.ne_of_gt (Box.dim_pos h .x)
  have hy := Nat.ne_of_gt (Box.dim_pos h .y)
  have hz := Nat.ne_of_gt (Box.dim_pos h .z)
  simp only [Vec3.get] at hx hy hz
  simp only [bytes, Vec3.toList, List.foldl_cons, List.foldl_nil, if_neg hx, if_neg hy, if_neg hz]

/-- Memory for the list of the coordinates of a box is memory for a list along each edge. -/
theorem lt_memoryBytes_of_dim {b : Box} (h : b.Nonempty)
    (hroom : words.reserve? b.dim 8 = .ok ()) (axis : Axis) :
    8 * b.dim.get axis < memoryBytes := by
  have hx := Box.dim_pos h .x
  have hy := Box.dim_pos h .y
  have hz := Box.dim_pos h .z
  rw [reserve?_words_iff, bytes_dim h] at hroom
  simp only [Vec3.get] at hx hy hz
  refine Nat.lt_of_le_of_lt ?_ hroom
  cases axis with
  | x =>
    rw [Nat.mul_assoc (8 * b.dim.x)]
    exact Nat.le_mul_of_pos_right _ (Nat.mul_pos hy hz)
  | y =>
    rw [Nat.mul_right_comm 8, Nat.mul_assoc (8 * b.dim.y)]
    exact Nat.le_mul_of_pos_right _ (Nat.mul_pos hx hz)
  | z =>
    rw [Nat.mul_right_comm _ b.dim.y, Nat.mul_right_comm 8, Nat.mul_assoc (8 * b.dim.z)]
    exact Nat.le_mul_of_pos_right _ (Nat.mul_pos hx hy)

/-- Where there is memory for them, the coordinates of a box are listed exactly if they are
words. -/
theorem wordCoords?_eq_coords_iff {b : Box} (h : b.Nonempty)
    (hroom : words.reserve? b.dim 8 = .ok ()) : wordCoords? b = .ok b.coords ↔ b.FitsWords := by
  constructor
  · intro hlist c hc
    exact isSigned_of_wordCoords? hlist c (Box.mem_coords.mpr hc)
  · intro hwords
    have hedge := lt_memoryBytes_of_dim h hroom
    obtain ⟨hx, hy, hz⟩ := Box.lo_mem h
    have hxs := wordRange?_eq_range h.1 (hedge .x) fun n hlo hhi =>
      hwords ⟨n, _, _⟩ ⟨⟨hlo, hhi⟩, hy, hz⟩ n List.mem_cons_self
    have hys := wordRange?_eq_range h.2.1 (hedge .y) fun n hlo hhi =>
      hwords ⟨_, n, _⟩ ⟨hx, ⟨hlo, hhi⟩, hz⟩ n (by simp [Vec3.toList])
    have hzs := wordRange?_eq_range h.2.2 (hedge .z) fun n hlo hhi =>
      hwords ⟨_, _, n⟩ ⟨hx, hy, hlo, hhi⟩ n (by simp [Vec3.toList])
    rw [wordCoords?, Box.isEmpty_eq_false.mpr h, if_neg Bool.false_ne_true]
    refine bind_eq_ok.mpr ⟨_, hxs, ?_⟩
    refine bind_eq_ok.mpr ⟨_, hys, ?_⟩
    refine bind_eq_ok.mpr ⟨_, hzs, ?_⟩
    rw [Box.length_range, Box.length_range, Box.length_range]
    exact bind_eq_ok.mpr ⟨(), hroom, rfl⟩

/-- The machine lists the voxels of a box as they are, where it lists them. -/
def Enumerates (machine : Machine) (b : Box) : Prop :=
  ∀ cs, machine.coords? b = .ok cs → cs = b.coords

/-- The machine lists the voxels of the boxes in a box as they are, where it lists them. -/
def EnumeratesIn (machine : Machine) (whole : Box) : Prop :=
  ∀ b : Box, b.Nonempty → (∀ c ∈ b, c ∈ whole) → machine.Enumerates b

theorem Enumerates.of_ideal {machine : Machine} (h : machine = ideal) (b : Box) :
    machine.Enumerates b := by
  rintro cs hcs
  rw [h] at hcs
  cases hcs
  rfl

theorem EnumeratesIn.of_ideal {machine : Machine} (h : machine = ideal) (whole : Box) :
    machine.EnumeratesIn whole :=
  fun b _ _ => .of_ideal h b

theorem bytes_dim_le {b whole : Box} (h : b.Nonempty) (hsub : ∀ c ∈ b, c ∈ whole) (entry : Nat) :
    bytes b.dim entry ≤ bytes whole.dim entry := by
  have hwhole := Box.nonempty_of_mem (hsub _ (Box.lo_mem h))
  obtain ⟨⟨hx, -⟩, ⟨hy, -⟩, hz, -⟩ := hsub _ (Box.lo_mem h)
  obtain ⟨⟨-, kx⟩, ⟨-, ky⟩, -, kz⟩ := hsub _ (Box.hi_mem h)
  rw [bytes_dim h, bytes_dim hwhole]
  simp only [Box.dim, Vec3.zipWith]
  refine Nat.mul_le_mul (Nat.mul_le_mul (Nat.mul_le_mul_left entry ?_) ?_) ?_
  · omega
  · omega
  · omega

/-- Where a box consists of words and there is memory for a list of it, its parts are listed as they
are. -/
theorem enumeratesIn_words {whole : Box} (hwords : whole.FitsWords)
    (hroom : words.reserve? whole.dim 8 = .ok ()) : words.EnumeratesIn whole := by
  intro b hb hsub cs hcs
  have hmemory : words.reserve? b.dim 8 = .ok () :=
    reserve?_words_iff.mpr (Nat.lt_of_le_of_lt (bytes_dim_le hb hsub 8)
      (reserve?_words_iff.mp hroom))
  have hlist := (wordCoords?_eq_coords_iff hb hmemory).mpr fun c hc => hwords c (hsub c hc)
  exact Except.ok.inj (hcs.symm.trans hlist)

/-- Room for a list of the coordinates of a block. -/
def HasListRoom (machine : Machine) (k : Nat) : Prop :=
  machine.reserve? (.replicate (Box.edge k)) 8 = .ok ()

theorem wordCoords?_ofBlock {k : Nat} {key : Coord} (hroom : words.HasListRoom k)
    (h : (Box.ofBlock k key).FitsWords) :
    wordCoords? (Box.ofBlock k key) = .ok (Box.ofBlock k key).coords := by
  refine (wordCoords?_eq_coords_iff (Box.nonempty_ofBlock k key) ?_).mpr h
  rw [Box.dim_ofBlock]
  exact hroom

end Machine

end SparseVoxel

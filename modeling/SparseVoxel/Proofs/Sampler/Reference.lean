import Mathlib.Data.Rat.Floor
import SparseVoxel.Proofs.Sampler.Weights
import SparseVoxel.Value.Kind

/-!
# What a sample is

In exact arithmetic the numbers of both precisions are scalars, which gives every kind of values its
type `ValueKind.ValueOver`. `ValueKind.Converts` says which value a blend of channels is converted
to, and `Sampler.IsSample` what the sample at a position is: the nearest voxel, or the weighted sum
over the stencil, converted, and active where a voxel that carries weight is. It mentions neither
windows nor the formulas that blends are computed by. `Sampler.sample_eq_reference` says that
reading from a grid and reading from any window that holds the stencil both give this sample.
-/

namespace SparseVoxel

/-! ## Rounding -/

/-- An integer nearest to a scalar, and an even one where another is as near. -/
def RoundsTo {K : Type} [Field K] [LinearOrder K] (a : K) (n : Int) : Prop :=
  (∀ m : Int, |a - n| ≤ |a - m|) ∧ ∀ m : Int, m ≠ n → |a - m| = |a - n| → Even n

section Rounding

variable {K : Type} [Field K] [LinearOrder K] [IsStrictOrderedRing K]

/-- An integer within one half is nearest, and only at one half is another as near. -/
theorem roundsTo_of_le_half {a : K} {n : Int} (hle : |a - n| ≤ 1 / 2)
    (heven : |a - n| = 1 / 2 → Even n) : RoundsTo a n := by
  have hother : ∀ m : Int, m ≠ n → 1 - |a - n| ≤ |a - m| := by
    intro m hm
    have hone : (1 : K) ≤ |((n - m : Int) : K)| := by
      rw [← Int.cast_abs]
      exact_mod_cast Int.one_le_abs (sub_ne_zero.mpr hm.symm)
    have htriangle := abs_sub_le (n : K) a m
    rw [abs_sub_comm (n : K) a] at htriangle
    push_cast at hone
    linarith
  constructor
  · intro m
    by_cases hm : m = n
    · rw [hm]
    · have := hother m hm
      linarith
  · intro m hm hequal
    have := hother m hm
    exact heven (by linarith)

theorem roundsTo_roundEven [FloorRing K] (a : K) : RoundsTo a (Scalar.roundEven a) := by
  have hle := Int.floor_le a
  have hlt := Int.lt_floor_add_one a
  have hround : Scalar.roundEven a =
      if a - ⌊a⌋ < 1 / 2 then ⌊a⌋ else if 1 / 2 < a - ⌊a⌋ then ⌊a⌋ + 1 else ⌊a⌋ + ⌊a⌋ % 2 := by
    rw [← Exact.half_eq]
    rfl
  have hnear : ∀ n : Int, |a - n| < 1 / 2 → RoundsTo a n := fun n h =>
    roundsTo_of_le_half h.le fun heq => absurd heq h.ne
  rw [hround]
  split
  · next hbelow =>
    refine hnear _ ?_
    rw [abs_lt]
    constructor <;> linarith
  · next hbelow =>
    split
    · next habove =>
      refine hnear _ ?_
      rw [abs_lt]
      push_cast
      constructor <;> linarith
    · next habove =>
      -- halfway: the remainder is added exactly where the floor is odd
      have hhalf : a - ⌊a⌋ = 1 / 2 := le_antisymm (not_lt.mp habove) (not_lt.mp hbelow)
      rcases Int.emod_two_eq_zero_or_one ⌊a⌋ with hmod | hmod
      · rw [hmod, add_zero]
        refine roundsTo_of_le_half ?_ fun _ => Int.even_iff.mpr hmod
        rw [hhalf, abs_of_nonneg one_half_pos.le]
      · rw [hmod]
        have hneg : a - ((⌊a⌋ + 1 : Int) : K) = -(1 / 2) := by
          push_cast
          linarith
        refine roundsTo_of_le_half ?_ fun _ => Int.even_iff.mpr (by omega)
        rw [hneg, abs_neg, abs_of_nonneg one_half_pos.le]

end Rounding

/-! ## Values over exact scalars -/

namespace ValueKind

/-- The values of a kind, with scalars for the numbers of either precision. -/
abbrev ValueOver (K : Type) : ValueKind → Type
  | .bool => Bool
  | .int32 => Int32
  | .int64 => Int64
  | .single => K
  | .double => K
  | .single3 => Vec3 K
  | .double3 => Vec3 K

instance {K : Type} [Scalar K] : (kind : ValueKind) → VoxelValue K (kind.ValueOver K)
  | .bool => inferInstanceAs (VoxelValue K Bool)
  | .int32 => inferInstanceAs (VoxelValue K Int32)
  | .int64 => inferInstanceAs (VoxelValue K Int64)
  | .single => inferInstanceAs (VoxelValue K K)
  | .double => inferInstanceAs (VoxelValue K K)
  | .single3 => inferInstanceAs (VoxelValue K (Vec3 K))
  | .double3 => inferInstanceAs (VoxelValue K (Vec3 K))

/-- The value that a blend of channels is converted to. A truth value holds from one half on, an
integer is the nearest one, the least one standing for those that do not fit, and scalars stay as
they are, in triples one by one. -/
def Converts {K : Type} [Field K] [LinearOrder K] :
    (kind : ValueKind) → ((kind.ValueOver K → K) → K) → kind.ValueOver K → Prop
  | .bool, blend, b => b = true ↔ 1 / (2 : Nat) ≤ blend fun b => if b then 1 else 0
  | .int32, blend, v => ∃ n, RoundsTo (blend fun v => (v.toInt : K)) n ∧
      v.toInt = Word.orLeast Word.bound32 n
  | .int64, blend, v => ∃ n, RoundsTo (blend fun v => (v.toInt : K)) n ∧
      v.toInt = Word.orLeast Word.bound64 n
  | .single, blend, a => a = blend fun a => a
  | .double, blend, a => a = blend fun a => a
  | .single3, blend, v => ∀ axis, v.get axis = blend fun v => v.get axis
  | .double3, blend, v => ∀ axis, v.get axis = blend fun v => v.get axis

end ValueKind

theorem Word.toInt_ofInt_orLeast32 (n : Int) :
    (Int32.ofInt (orLeast bound32 n)).toInt = orLeast bound32 n := by
  obtain ⟨hle, hlt⟩ := orLeast_between (by decide : 0 < bound32) n
  exact Int32.toInt_ofInt_of_le hle hlt

theorem Word.toInt_ofInt_orLeast64 (n : Int) :
    (Int64.ofInt (orLeast bound64 n)).toInt = orLeast bound64 n := by
  obtain ⟨hle, hlt⟩ := orLeast_between (by decide : 0 < bound64) n
  exact Int64.toInt_ofInt_of_le hle hlt

section Exact

variable {K : Type} [Field K] [LinearOrder K] [FloorRing K] [IsStrictOrderedRing K]

theorem ValueKind.converts_blend (kind : ValueKind) (blend : (kind.ValueOver K → K) → K) :
    kind.Converts blend (VoxelValue.blend blend) := by
  cases kind with
  | bool =>
    have hone : (Scalar.ofInt 1 : K) = 1 := Int.cast_one
    have hzero : (Scalar.ofInt 0 : K) = 0 := Int.cast_zero
    show decide ((Scalar.half : K) ≤ blend fun b => if b then Scalar.ofInt 1 else Scalar.ofInt 0) =
      true ↔ 1 / (2 : Nat) ≤ blend fun b => if b then 1 else 0
    rw [decide_eq_true_iff, Exact.half_eq, hone, hzero, Nat.cast_ofNat]
  | int32 => exact ⟨_, roundsTo_roundEven _, Word.toInt_ofInt_orLeast32 _⟩
  | int64 => exact ⟨_, roundsTo_roundEven _, Word.toInt_ofInt_orLeast64 _⟩
  | single => rfl
  | double => rfl
  | single3 =>
    intro axis
    cases axis <;> rfl
  | double3 =>
    intro axis
    cases axis <;> rfl

/-! ## Samples -/

namespace Sampler

/-- The state that is to be read at a position of a grid with a given view. -/
def IsSample (s : Sampler) (kind : ValueKind) (read : Coord → Voxel (kind.ValueOver K))
    (p : Vec3 K) (v : Voxel (kind.ValueOver K)) : Prop :=
  match s with
  | .point => v = read (nearest p)
  | .box | .quadratic =>
    let base := s.baseOf p
    let rest := p - base.toScalars
    kind.Converts (fun channel => s.blend rest fun o => channel (read (base + o)).value) v.value ∧
      (v.active = true ↔
        ∃ o ∈ s.stencil, s.weightAt rest o ≠ 0 ∧ (read (base + o)).active = true)

theorem any_touched_iff (s : Sampler) (p : Vec3 K) (active : Coord → Bool) :
    (s.stencil.any fun o => s.touches (p - (s.baseOf p).toScalars) o && active o) = true ↔
      ∃ o ∈ s.stencil, s.weightAt (p - (s.baseOf p).toScalars) o ≠ 0 ∧ active o = true := by
  rw [List.any_eq_true]
  refine exists_congr fun o => and_congr_right fun ho => ?_
  rw [Bool.and_eq_true, touches_iff_weightAt_ne_zero s p ho]

theorem isSample_sampleAt (s : Sampler) (kind : ValueKind)
    (read : Coord → Voxel (kind.ValueOver K)) (p : Vec3 K) :
    s.IsSample kind read p (s.sampleAt read p) := by
  cases s with
  | point => exact sampleAt_point read p
  | box =>
    refine ⟨?_, any_touched_iff .box p fun o => (read (baseOf .box p + o)).active⟩
    simp only [← trilinear_eq_blend]
    exact kind.converts_blend _
  | quadratic =>
    refine ⟨?_, any_touched_iff .quadratic p fun o => (read (baseOf .quadratic p + o)).active⟩
    simp only [← triquadratic_eq_blend]
    exact kind.converts_blend _

/-- **Samples do not depend on windows.** At every position a window that holds the stencil and the
grid itself give one sample, and that is the nearest voxel or the weighted sum over the stencil. -/
theorem sample_eq_reference (s : Sampler) (kind : ValueKind) {k : Nat}
    (g : Grid (kind.ValueOver K) k) (p : Vec3 K) {box : Box}
    (hbox : ∀ o ∈ s.stencil, s.baseOf p + o ∈ box) :
    ∃ v, s.readWindow? (g.window box) (p - box.lo.toScalars) = .ok v ∧
      s.readGrid? g p = .ok v ∧ s.IsSample kind g.read p v :=
  ⟨s.sampleAt g.read p, readWindow?_eq_ok s g hbox, readGrid?_eq_ok s g p,
    isSample_sampleAt s kind g.read p⟩

/-- A position left of the origin and halfway between two voxels, in a tight window. -/
theorem sample_eq_reference_halfway :
    let g : Grid Int32 3 := (Grid.empty 1).fill ⟨⟨-3, 0, 1⟩, ⟨-2, 0, 2⟩⟩ ⟨7, true⟩
    let p : Vec3 ℚ := ⟨-5 / 2, 1 / 3, 7 / 4⟩
    let box : Box := ⟨⟨-3, -1, 1⟩, ⟨-1, 1, 3⟩⟩
    (∀ o ∈ stencil .quadratic, baseOf .quadratic p + o ∈ box) ∧
      ∃ v, readWindow? .quadratic (g.window box) (p - box.lo.toScalars) = .ok v ∧
        readGrid? .quadratic g p = .ok v ∧ IsSample .quadratic .int32 g.read p v := by
  intro g p box
  have hbox : ∀ o ∈ stencil .quadratic, baseOf .quadratic p + o ∈ box := by decide +kernel
  exact ⟨hbox, sample_eq_reference .quadratic .int32 g p hbox⟩

end Sampler

end Exact

end SparseVoxel

import SparseVoxel.Proofs.Sampler.Reference

/-!
# Samples component by component

A value of every kind is a scalar for each axis, `ValueKind.component`: the entry of a triple, and
for the other kinds the number itself, with one and zero for the truth values. What a value of the
kind becomes of a scalar is `ValueKind.convert`. In exact arithmetic each component of a sample is
the weighted sum of that component over the stencil, converted (`component_sampleAt`).

Conversion keeps the components of values (`convert_component`), and between two of them it keeps
the order (`convert_mono`).
-/

namespace SparseVoxel

namespace ValueKind

section Components

variable {K : Type} [Field K]

/-- The entry of a value on an axis, as a scalar. -/
def component : (kind : ValueKind) → kind.ValueOver K → Axis → K
  | .bool, b, _ => if b then 1 else 0
  | .int32, v, _ => (v.toInt : K)
  | .int64, v, _ => (v.toInt : K)
  | .single, a, _ => a
  | .double, a, _ => a
  | .single3, v, axis => v.get axis
  | .double3, v, axis => v.get axis

/-- The bound below which the integers of a kind lie, if it has integers. -/
def bound? : ValueKind → Option Int
  | .int32 => some Word.bound32
  | .int64 => some Word.bound64
  | _ => none

/-- The components of the values of a kind with integers are integers that fit. -/
theorem component_of_bound {kind : ValueKind} {bound : Int} (h : kind.bound? = some bound)
    (v : kind.ValueOver K) (axis : Axis) :
    ∃ n : Int, kind.component v axis = n ∧ -bound ≤ n ∧ n < bound := by
  cases kind with
  | int32 =>
    cases h
    exact ⟨v.toInt, rfl, v.le_toInt, v.toInt_lt⟩
  | int64 =>
    cases h
    exact ⟨v.toInt, rfl, v.le_toInt, v.toInt_lt⟩
  | _ => cases h

variable [LinearOrder K] [FloorRing K]

/-- What a component becomes of a scalar: truth values hold from one half on, integers are rounded,
an exact half to the even neighbour, and the other kinds keep the scalar. -/
def convert (kind : ValueKind) (a : K) : K :=
  match kind with
  | .bool => if Scalar.half ≤ a then 1 else 0
  | .int32 => (Word.orLeast Word.bound32 (Scalar.roundEven a) : Int)
  | .int64 => (Word.orLeast Word.bound64 (Scalar.roundEven a) : Int)
  | .single | .double | .single3 | .double3 => a

/-- The components of a blend are the converted blends of the components. -/
theorem component_blend (kind : ValueKind) (blend : (kind.ValueOver K → K) → K) (axis : Axis) :
    kind.component (VoxelValue.blend blend) axis =
      kind.convert (blend fun v => kind.component v axis) := by
  cases kind with
  | bool =>
    have hread : (fun b : Bool => if b then (Scalar.ofInt 1 : K) else Scalar.ofInt 0) =
        fun b => if b then 1 else 0 := by
      simp only [Exact.ofInt_eq, Int.cast_one, Int.cast_zero]
    show (if decide (Scalar.half ≤ blend fun b => if b then Scalar.ofInt 1 else Scalar.ofInt 0)
      then (1 : K) else 0) = if Scalar.half ≤ blend (fun b => if b then 1 else 0) then 1 else 0
    rw [hread]
    simp only [decide_eq_true_eq]
  | int32 => exact congrArg Int.cast (Word.toInt_ofInt_orLeast32 _)
  | int64 => exact congrArg Int.cast (Word.toInt_ofInt_orLeast64 _)
  | single => rfl
  | double => rfl
  | single3 => cases axis <;> rfl
  | double3 => cases axis <;> rfl

end Components

variable {K : Type} [Field K] [LinearOrder K] [IsStrictOrderedRing K]

/-- A value is given by its components. -/
theorem ext_component {kind : ValueKind} {v w : kind.ValueOver K}
    (h : ∀ axis, kind.component v axis = kind.component w axis) : v = w := by
  cases kind with
  | bool =>
    have hx := h .x
    cases v <;> cases w <;> simp_all [component]
  | int32 => exact Int32.toInt_inj.mp (Int.cast_injective (h .x))
  | int64 => exact Int64.toInt_inj.mp (Int.cast_injective (h .x))
  | single => exact h .x
  | double => exact h .x
  | single3 => exact Vec3.ext_get h
  | double3 => exact Vec3.ext_get h

variable [FloorRing K]

theorem convert_component (kind : ValueKind) (v : kind.ValueOver K) (axis : Axis) :
    kind.convert (kind.component v axis) = kind.component v axis := by
  have hword : ∀ {bound n : Int}, Word.orLeast bound n = n →
      ((Word.orLeast bound (Scalar.roundEven (n : K)) : Int) : K) = n := by
    intro bound n hn
    rw [Exact.roundEven_intCast, hn]
  cases kind with
  | bool => cases v <;> norm_num [component, convert, Exact.half_eq]
  | int32 => exact hword (Word.orLeast_int32 v)
  | int64 => exact hword (Word.orLeast_int64 v)
  | single => rfl
  | double => rfl
  | single3 => rfl
  | double3 => rfl

instance (kind : ValueKind) : ExactValue K (kind.ValueOver K) where
  blend_channel v := ext_component fun axis => by
    rw [component_blend, convert_component]

/-! ## Order -/

theorem roundEven_mono {a b : K} (h : a ≤ b) : Scalar.roundEven a ≤ Scalar.roundEven b := by
  by_contra hlt
  have hlt : ((Scalar.roundEven b : Int) : K) < Scalar.roundEven a :=
    Int.cast_lt.mpr (not_le.mp hlt)
  -- both lie at the middle between the two integers, so they are equal
  have ha := (roundsTo_roundEven a).1 (Scalar.roundEven b)
  have hb := (roundsTo_roundEven b).1 (Scalar.roundEven a)
  have hle : b ≤ a := by
    rw [← sq_le_sq] at ha hb
    nlinarith
  rw [le_antisymm h hle] at hlt
  exact lt_irrefl _ hlt

/-- The integer nearest to a scalar between two integers lies between them. -/
theorem roundEven_between {lo hi : Int} {a : K} (hlo : (lo : K) ≤ a) (hhi : a ≤ hi) :
    lo ≤ Scalar.roundEven a ∧ Scalar.roundEven a ≤ hi := by
  have hlo := roundEven_mono hlo
  have hhi := roundEven_mono hhi
  rw [Exact.roundEven_intCast] at hlo hhi
  exact ⟨hlo, hhi⟩

/-- Between the components of two values the nearest integer fits, and is what a scalar is
converted to. -/
theorem convert_of_bound {kind : ValueKind} {bound : Int} (h : kind.bound? = some bound)
    {u w : kind.ValueOver K} {axis : Axis} {a : K} (hu : kind.component u axis ≤ a)
    (hw : a ≤ kind.component w axis) :
    kind.convert a = (Scalar.roundEven a : Int) ∧
      -bound ≤ Scalar.roundEven a ∧ Scalar.roundEven a < bound := by
  obtain ⟨lo, hlo, hfit, -⟩ := component_of_bound h u axis
  obtain ⟨hi, hhi, -, hfit'⟩ := component_of_bound h w axis
  rw [hlo] at hu
  rw [hhi] at hw
  obtain ⟨hle, hle'⟩ := roundEven_between hu hw
  have hleast : Word.orLeast bound (Scalar.roundEven a) = Scalar.roundEven a :=
    Word.orLeast_of_le_of_lt (by omega) (by omega)
  refine ⟨?_, by omega, by omega⟩
  cases kind with
  | int32 =>
    cases h
    exact congrArg Int.cast hleast
  | int64 =>
    cases h
    exact congrArg Int.cast hleast
  | _ => cases h

/-- Conversion keeps the order of scalars between the components of two values. -/
theorem convert_mono {kind : ValueKind} {u w : kind.ValueOver K} {axis : Axis} {a b : K}
    (hu : kind.component u axis ≤ a) (hab : a ≤ b) (hw : b ≤ kind.component w axis) :
    kind.convert a ≤ kind.convert b := by
  have hword : ∀ {bound : Int}, kind.bound? = some bound → kind.convert a ≤ kind.convert b := by
    intro bound h
    rw [(convert_of_bound h hu (hab.trans hw)).1, (convert_of_bound h (hu.trans hab) hw).1]
    exact Int.cast_le.mpr (roundEven_mono hab)
  cases kind with
  | bool =>
    show (if Scalar.half ≤ a then (1 : K) else 0) ≤ if Scalar.half ≤ b then 1 else 0
    split
    · next ha => rw [if_pos (ha.trans hab)]
    · split
      · exact zero_le_one
      · exact le_refl 0
  | int32 => exact hword rfl
  | int64 => exact hword rfl
  | single => exact hab
  | double => exact hab
  | single3 => exact hab
  | double3 => exact hab

/-- What is converted between the components of two values stays between them. -/
theorem convert_between {kind : ValueKind} {u w : kind.ValueOver K} {axis : Axis} {a : K}
    (hu : kind.component u axis ≤ a) (hw : a ≤ kind.component w axis) :
    kind.component u axis ≤ kind.convert a ∧ kind.convert a ≤ kind.component w axis := by
  have hlo := convert_mono (le_refl _) hu hw
  have hhi := convert_mono hu hw (le_refl _)
  rw [convert_component] at hlo hhi
  exact ⟨hlo, hhi⟩

end ValueKind

/-! ## Samples -/

namespace Sampler

theorem blend_point {K : Type} [Field K] (t : Vec3 K) (read : Coord → K) :
    blend .point t read = read ⟨0, 0, 0⟩ := by
  simp [blend, stencil, weightAt, weight]

variable {K : Type} [Field K] [LinearOrder K] [FloorRing K] [IsStrictOrderedRing K]

theorem component_evaluate (s : Sampler) (kind : ValueKind) (rest : Vec3 K)
    (read : Coord → Voxel (kind.ValueOver K)) (axis : Axis) :
    kind.component (s.evaluate rest read).value axis =
      kind.convert (s.blend rest fun o => kind.component (read o).value axis) := by
  cases s with
  | point => rw [blend_point, ValueKind.convert_component, evaluate]
  | box => rw [← trilinear_eq_blend]; exact kind.component_blend _ axis
  | quadratic => rw [← triquadratic_eq_blend]; exact kind.component_blend _ axis

/-- The components of a sample are the converted blends of the components that are read. -/
theorem component_sampleAt (s : Sampler) (kind : ValueKind)
    (read : Coord → Voxel (kind.ValueOver K)) (p : Vec3 K) (axis : Axis) :
    kind.component (s.sampleAt read p).value axis =
      kind.convert (s.blend (p - (s.baseOf p).toScalars) fun o =>
        kind.component (read (s.baseOf p + o)).value axis) :=
  s.component_evaluate kind _ _ axis

end Sampler

end SparseVoxel

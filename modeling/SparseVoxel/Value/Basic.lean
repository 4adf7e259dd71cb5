import SparseVoxel.Machine

/-!
# Values that a grid can hold

A grid may hold truth values, integers of 32 or 64 bits, numbers, or triples of numbers.
`VoxelValue.blend` makes a value out of a blend of readings: the blend is computed once for each
channel in the scalars and then brought back to the type, integers by rounding to nearest and
truth values by comparing with one half. An integer that does not fit into the type becomes the
least one of it.
-/

namespace SparseVoxel

/-- A type of values that can be blended and compared up to a tolerance in scalars `K`. -/
class VoxelValue (K : Type) (V : Type) where
  /-- The value whose channels are the given blend of the channels that are read. -/
  blend : ((V → K) → K) → V
  /-- Whether a value lies within a tolerance of a reference value. -/
  within : K → V → V → Bool

namespace VoxelValue

variable {K : Type} [Scalar K]

instance : VoxelValue K Bool where
  blend f := decide (Scalar.half ≤ f fun b => if b then Scalar.ofInt 1 else Scalar.ofInt 0)
  within _ a b := a == b

instance : VoxelValue K Int32 where
  blend f := Int32.ofInt (Word.orLeast Word.bound32
    (Scalar.roundEven (f fun n => Scalar.ofInt n.toInt)))
  within tolerance a b :=
    Scalar.near (Scalar.ofInt 0) tolerance (Scalar.ofInt a.toInt : K) (Scalar.ofInt b.toInt)

instance : VoxelValue K Int64 where
  blend f := Int64.ofInt (Word.orLeast Word.bound64
    (Scalar.roundEven (f fun n => Scalar.ofInt n.toInt)))
  within tolerance a b :=
    Scalar.near (Scalar.ofInt 0) tolerance (Scalar.ofInt a.toInt : K) (Scalar.ofInt b.toInt)

/-- Scalars themselves are kept as they are blended. -/
instance : VoxelValue K K where
  blend f := f id
  within tolerance a b := Scalar.near (Scalar.ofInt 0) tolerance a b

/-- Binary32 numbers are blended in binary64 and rounded once. -/
instance : VoxelValue Float Float32 where
  blend f := (f Float32.toFloat).toFloat32
  within tolerance a b :=
    (decide ((a - b).abs ≤ tolerance.toFloat32) && b.isFinite) || a == b

/-- The channels of a triple are blended one by one. -/
instance {V : Type} [VoxelValue K V] : VoxelValue K (Vec3 V) where
  blend f := ⟨blend fun read => f fun v => read v.x, blend fun read => f fun v => read v.y,
    blend fun read => f fun v => read v.z⟩
  within tolerance a b := within tolerance a.x b.x && within tolerance a.y b.y &&
    within tolerance a.z b.z

/-- The value whose channels are all zero. -/
def zero {V : Type} (K : Type) [Scalar K] [VoxelValue K V] : V :=
  blend fun (_ : V → K) => Scalar.ofInt 0

end VoxelValue

instance : Sized Bool := ⟨1⟩
instance : Sized Int32 := ⟨4⟩
instance : Sized Int64 := ⟨8⟩
instance : Sized Float32 := ⟨4⟩
instance : Sized Float := ⟨8⟩

/-- A triple takes as much as its three entries. -/
instance {V : Type} [Sized V] : Sized (Vec3 V) := ⟨3 * Sized.bytes V⟩

end SparseVoxel

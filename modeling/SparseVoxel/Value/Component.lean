import SparseVoxel.Holding
import SparseVoxel.Nested.Reading

/-!
# Components of values and their conversion

The numbers of one list are first put into one array, and how that array holds them decides how
they are converted (`Holding.of`). Integers of 64 bits convert by wrapping around. Real numbers,
and integers of which only some need the 64th bit for their size, convert as binary64 numbers do.
Where some integer has more than 64 bits, or where a single number is converted alone, the array
keeps every number as it is given; then nothing wraps, and a number that does not fit is refused.
-/

namespace SparseVoxel

namespace Number

/-- A word wrapped around; the least integer of a range stands for every real number outside. -/
def wrapped? (bound : Int) : Holding → Number → Except Fault Int
  | .words, n => n.truncate?
  | .separate, n => n.word? bound
  | .reals, n => do
    match Binary64.read (← n.toFloat?) with
    | .finite d => return Word.orLeast bound d.truncate
    | _ => return -bound

/-- The number in binary32. A word is rounded once, anything else by way of binary64. -/
def toSingle? : Holding → Number → Except Fault Float32
  | .words, int n =>
    let size := Float32.ofNat n.natAbs
    .ok (if n < 0 then -size else size)
  | _, n => Float.toFloat32 <$> n.toFloat?

end Number

/-- A type of single numbers that a grid can hold. -/
class Component (C : Type) where
  ofNumber? : Holding → Number → Except Fault C
  toNumber : C → Number

instance : Component Bool where
  ofNumber? _ n := .ok n.toBool
  toNumber b := .bool b

instance : Component Int32 where
  ofNumber? h n := Int32.ofInt <$> n.wrapped? Word.bound32 h
  toNumber n := .int n.toInt

instance : Component Int64 where
  ofNumber? h n := Int64.ofInt <$> n.wrapped? Word.bound64 h
  toNumber n := .int n.toInt

instance : Component Float32 where
  ofNumber? h n := n.toSingle? h
  toNumber x := .real x.toFloat

instance : Component Float where
  ofNumber? _ n := n.toFloat?
  toNumber x := .real x

/-- How a value is put together from its components. -/
class Packing (V : Type) (C : outParam Type) where
  width : Nat
  pack? : List C → Option V
  unpack : V → List C

/-- A single number is its own component. -/
@[reducible]
def Packing.single (C : Type) : Packing C C where
  width := 1
  pack?
    | [c] => some c
    | _ => none
  unpack c := [c]

instance : Packing Bool Bool := .single Bool
instance : Packing Int32 Int32 := .single Int32
instance : Packing Int64 Int64 := .single Int64
instance : Packing Float32 Float32 := .single Float32
instance : Packing Float Float := .single Float

instance {C : Type} : Packing (Vec3 C) C where
  width := 3
  pack? := Vec3.ofList?
  unpack := Vec3.toList

namespace Packing

variable {V C : Type} [Component C]

/-- The components of nested numbers, converted as the array of all of them holds them. -/
def components? (raw : Nested Number) : Except Fault (List C) := do
  let t ← raw.requireTensor
  t.entries.mapM (Component.ofNumber? (.of t.entries))

/-- Numbers converted one by one. -/
def separately? (ns : List Number) : Except Fault (List C) :=
  ns.mapM (Component.ofNumber? .separate)

variable [Packing V C]

/-- The value put together from components; one component serves for all of them. -/
def fit? (cs : List C) : Except Fault V :=
  let cs := match cs with
    | [c] => List.replicate (width V) c
    | cs => cs
  match pack? cs with
  | some v => .ok v
  | none => .error .shapeMismatch

/-- The value of a nested number; one number serves for all components. -/
def cast? (raw : Nested Number) : Except Fault V := do
  fit? (← components? raw : List C)

/-- The value of numbers that are converted one by one. -/
def castSeparately? (ns : List Number) : Except Fault V := do
  fit? (← separately? ns : List C)

/-- The given number of values whose components are listed one value after the other. -/
def castMany? (raw : Nested Number) (count : Nat) : Except Fault (List V) := do
  let cs : List C ← components? raw
  if cs.length ≠ count * width V then .error .shapeMismatch
  else
    match (Tensor.chunks (width V) count cs).mapM (pack? : List C → Option V) with
    | some vs => return vs
    | none => .error .shapeMismatch

/-- The components of a value as numbers. -/
def numbers (v : V) : List Number :=
  (unpack v).map Component.toNumber

end Packing

end SparseVoxel

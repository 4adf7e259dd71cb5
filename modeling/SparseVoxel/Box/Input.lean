import SparseVoxel.Box.Basic
import SparseVoxel.Nested.Reading

/-!
# Boxes from numbers

A box may be given by corners that are cut off toward zero, by a continuous box that is rounded
outward, or by points it has to enclose. `roundOut?_eq_ok` says that rounding outward succeeds
whenever all six bounds are finite.
-/

namespace SparseVoxel.Box

/-- The corners of a box as scalars, unless an entry is too large to be one. -/
def toScalars? {K : Type} [Scalar K] (b : Box) : Except Fault (Vec3 K × Vec3 K) := do
  let lo ← b.lo.toScalars?
  let hi ← b.hi.toScalars?
  return (lo, hi)

/-- Where every scalar is finite, no entry is too large. -/
theorem toScalars?_eq_ok {K : Type} [Scalar K] (h : ∀ a : K, Scalar.isFinite a = true) (b : Box) :
    (b.toScalars? : Except Fault (Vec3 K × Vec3 K)) = .ok (b.lo.toScalars, b.hi.toScalars) := by
  simp only [toScalars?, Coord.toScalars?_eq_ok h]
  rfl

/-- The least box of voxels around a continuous box. -/
def roundOut {K : Type} [Scalar K] (lo hi : Vec3 K) : Box :=
  ⟨lo.map Scalar.floor, hi.map Scalar.ceil⟩

/-- The least box of voxels around a continuous box, if its bounds are finite. -/
def roundOut? {K : Type} [Scalar K] (lo hi : Vec3 K) : Except Fault Box := do
  let lo ← lo.mapM Scalar.floor?
  let hi ← hi.mapM Scalar.ceil?
  return ⟨lo, hi⟩

/-- Finite bounds are rounded outward. -/
theorem roundOut?_eq_ok {K : Type} [Scalar K] {lo hi : Vec3 K}
    (hlo : ∀ axis, Scalar.isFinite (lo.get axis) = true)
    (hhi : ∀ axis, Scalar.isFinite (hi.get axis) = true) :
    roundOut? lo hi = .ok (roundOut lo hi) := by
  simp only [roundOut?, Vec3.mapM_eq_ok fun axis => Scalar.floor?_eq_ok (hlo axis),
    Vec3.mapM_eq_ok fun axis => Scalar.ceil?_eq_ok (hhi axis)]
  rfl

/-- The first three of a list of values, each turned into an integer, in order. -/
def firstThree? {α : Type} (f : α → Except Fault Int) (xs : List α) : Except Fault Coord := do
  let entry (i : Nat) : Except Fault Int :=
    match xs[i]? with
    | some a => f a
    | none => .error .tooFewElements
  let x ← entry 0
  let y ← entry 1
  let z ← entry 2
  return ⟨x, y, z⟩

/-- A corner whose first three numbers are cut off toward zero. -/
def corner? : Nested Float → Except Fault Coord
  | .leaf _ => .error .wrongKind
  | .node items => firstThree? (fun
    | .leaf a => (Number.real a).truncate?
    | .node _ => .error .wrongKind) items

/-- The box between two corners cut off toward zero. -/
def truncated? (lo hi : Nested Float) : Except Fault Box := do
  let lo ← corner? lo
  let hi ← corner? hi
  return ⟨lo, hi⟩

/-- The bound of a continuous box, each number rounded by `f`. A number may be wrapped in lists of
its own. -/
def bound? (f : Float → Except Fault Int) (t : Tensor Float) : Except Fault Coord :=
  match t.outerRows? with
  | none => .error .tooFewElements
  | some rows => firstThree? (fun
    | [a] => f a
    | _ => .error .wrongKind) rows

/-- The least box of voxels around the continuous box with the given bounds. Both bounds have to be
arrays before either of them is rounded. -/
def roundedOut? (lo hi : Nested Float) : Except Fault Box := do
  let lo ← lo.requireTensor
  let hi ← hi.requireTensor
  let lo ← bound? Scalar.floor? lo
  let hi ← bound? Scalar.ceil? hi
  return ⟨lo, hi⟩

/-- The tightest box around points whose coordinates are listed in threes, each of them cut off to
a 64-bit integer. -/
def tightest? (points : Nested Number) : Except Fault Box := do
  let points ← Nested.triples? (Number.word? Word.bound64) points
  match ofPoints? points with
  | some b => return b
  | none => .error .shapeMismatch

/-- The box with more voxels on each side, by a number that may be real; then the corners are
computed in binary64 and cut off toward zero. -/
def expandBy? (b : Box) : Number → Except Fault Box
  | .bool on => .ok (b.expand (if on then 1 else 0))
  | .int n => .ok (b.expand n)
  | .real x => do
    let lo ← b.lo.mapM fun c => do (Number.real ((← Scalar.ofInt? c) - x)).truncate?
    let hi ← b.hi.mapM fun c => do (Number.real ((← Scalar.ofInt? c) + x)).truncate?
    return ⟨lo, hi⟩

/-- The exponent of a block edge, which must not be negative. -/
def sizeExponent? (n : Int) : Except Fault Nat :=
  if n < 0 then .error .negativeShift else .ok n.toNat

/-- A triple of integers in parentheses. -/
def coordText (c : Coord) : String :=
  "(" ++ ", ".intercalate (c.toList.map toString) ++ ")"

/-- The box as text, its least corner first. -/
def text (b : Box) : String :=
  "CoordBBox(" ++ coordText b.lo ++ " -> " ++ coordText b.hi ++ ")"

end SparseVoxel.Box

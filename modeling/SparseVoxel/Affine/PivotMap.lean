import SparseVoxel.Affine.Parts
import SparseVoxel.Affine.Input
import SparseVoxel.Nested.Lines

/-!
# Pivoted maps by their parameters

A `PivotMap` scales and rotates about a pivot and then shifts. Its inverse is built from the
parameters and not by numeric inversion. The order of rotation is kept by name and read only when
a matrix is asked for.
-/

namespace SparseVoxel

open Scalar

/-- The map `T(shift) · T(pivot) · R · S · T(-pivot)`. -/
structure PivotMap (K : Type) where
  pivot : Vec3 K
  scale : Vec3 K
  rotation : Vec3 K
  shift : Vec3 K
  order : String

namespace PivotMap

variable {K : Type} [Scalar K]

/-- The map that changes nothing, with its order of rotation. -/
def identity (order : String) : PivotMap K :=
  ⟨.replicate 0, .replicate 1, .replicate 0, .replicate 0, order⟩

/-- Whether a map is near the one that changes nothing. -/
def isNearIdentity (m : PivotMap K) : Bool :=
  let close (v : Vec3 K) (a : K) := v.all fun n => near (tenth 5) (tenth 8) n a
  close m.scale 1 && close m.rotation 0 && close m.shift 0

/-- Whether some axis is scaled to nothing. -/
def collapses (m : PivotMap K) : Bool :=
  m.scale.any (· == 0)

/-- The matrix of a map with a given rotation. -/
def matrixWith (m : PivotMap K) (r : Matrix3 K) : Matrix4 K :=
  Affine.pivoted (some m.pivot) (some m.scale) (some r) (some m.shift)

/-- The inverse matrix of a map with a given rotation, built from the parameters. -/
def inverseWith (m : PivotMap K) (r : Matrix3 K) : Matrix4 K :=
  let block := Matrix3.scaleRows (m.scale.map (1 / ·)) r.transpose
  .affine block (m.pivot - block.mulVec (m.shift + m.pivot))

variable [Trigonometry K]

/-- The rotation of a map. -/
def rotationMatrix? (m : PivotMap K) : Except Fault (Matrix3 K) := do
  Euler.toMatrix? (← RotationOrder.ofName? m.order) m.rotation

/-- The matrix of a map. -/
def toMatrix? (m : PivotMap K) : Except Fault (Matrix4 K) := do
  return m.matrixWith (← m.rotationMatrix?)

/-- The inverse matrix, if no axis is scaled to nothing. -/
def inverseMatrix? (m : PivotMap K) : Except Fault (Option (Matrix4 K)) := do
  if m.collapses then return none
  else return some (m.inverseWith (← m.rotationMatrix?))

/-- An angle of the given number of degrees. -/
def ofDegrees (degrees : K) : K :=
  degrees * (Trigonometry.pi / 180)

end PivotMap

/-- The map of the parts of a matrix, without pivot. -/
def AffineParts.toPivotMap {K : Type} [Scalar K] (d : AffineParts K) : PivotMap K :=
  { PivotMap.identity "zyx" with
    scale := d.scale, rotation := d.rotation, shift := d.shift }

namespace PivotMap

/-- A map of nested vectors; absent ones change nothing. -/
def ofFields? (pivot scale rotation shift : Option (Nested Float)) (order : String) :
    Except Fault (PivotMap Float) := do
  let base : PivotMap Float := identity order
  let read (v : Option (Nested Float)) (default : Vec3 Float) := (v.mapM Vec3.ofEntries?).map
    (·.getD default)
  return {
    pivot := ← read pivot base.pivot
    scale := ← read scale base.scale
    rotation := ← read rotation base.rotation
    shift := ← read shift base.shift
    order }

/-- A scale about a pivot; the factor is looked at first. -/
def ofScale? (factor : Nested Float) (pivot : Option (Nested Float)) :
    Except Fault (PivotMap Float) := do
  let scale ← Vec3.ofEntries? factor
  return { ← ofFields? pivot none none none "zyx" with scale }

/-- A shift by exactly three items, which together hold three numbers. -/
def ofShift? : List (Nested Float) → Except Fault (PivotMap Float)
  | [x, y, z] => do return { identity "zyx" with shift := ← Vec3.ofRow? [x, y, z] }
  | _ => .error .wrongArguments

/-- A rotation by exactly three items, which together hold three angles in degrees. Where they are
refused, the angles are shown as an array. -/
def ofDegrees? (order : String) : List (Nested Float) → Except Fault (PivotMap Float)
  | [x, y, z] => do
    let angles := (Nested.node [x, y, z]).map ofDegrees
    let shown := (← angles.requireTensor).text
    return { identity order with rotation := ← Vec3.ofShown? shown angles }
  | _ => .error .wrongArguments

/-- The map of a scale, a rotation and a shift, each of them a list. -/
def ofParts? : Nested Float → Nested Float → Nested Float → Except Fault (PivotMap Float)
  | .node scale, .node rotation, .node shift => do
    let scale ← Vec3.ofRow? scale
    let rotation ← Vec3.ofRow? rotation
    let shift ← Vec3.ofRow? shift
    return { identity "zyx" with scale, rotation, shift }
  | _, _, _ => .error .wrongKind

end PivotMap

end SparseVoxel

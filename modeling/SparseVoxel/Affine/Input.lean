import SparseVoxel.Affine.Basic
import SparseVoxel.Nested.Determinant
import SparseVoxel.Nested.Reading

/-!
# Affine maps of nested lists

Points may come in arrays of any shape, and the bounds of a box broadcast against its eight
corners. A map is read off the upper left part of an array, which may have fewer or more rows,
columns and axes than a matrix of order four as long as the shapes fit: the block is multiplied and
the column added as arrays are, with broadcasting.
-/

namespace SparseVoxel

namespace Affine

/-- The composed matrix of nested vectors. Each is checked when its factor is reached, and the
order of rotation matters only where there is a rotation. -/
def pivoted? (pivot scale rotation shift : Option (Nested Float)) (order : String) :
    Except Fault (Matrix4 Float) := do
  let pivot ← pivot.mapM Vec3.ofNested?
  let scale ← scale.mapM Vec3.ofNested?
  let rotation ← rotation.mapM fun v => do
    let angles ← Vec3.ofNested? v
    Euler.toMatrix? (← RotationOrder.ofName? order) angles
  let shift ← shift.mapM Vec3.ofNested?
  return pivoted pivot scale rotation shift

/-- The rotation of three angles in an order given by name; the name is looked at first. -/
def rotation? (order : String) (angles : Nested Float) : Except Fault (Matrix3 Float) := do
  let order ← RotationOrder.ofName? order
  Euler.toMatrix? order (← Vec3.ofThree? angles)

/-- The angles of an array whose first two axes hold a matrix of three rows, and whose other axes
have length one. A third column is needed only when the outer rotations have distinct axes. -/
def angles? (r : Nested Float) : Except Fault (Vec3 Float) := do
  let t ← r.requireTensor
  match t.shape with
  | n :: m :: rest =>
    let row (i : Nat) : Vec3 Float :=
      let entry (j : Nat) : Float := (t.entries.drop (i * m + j)).headD 0
      ⟨entry 0, entry 1, entry 2⟩
    let turn : Matrix3 Float := ⟨⟨row 0, row 1, row 2⟩⟩
    if n < 2 || m < 1 then .error .tooFewElements
    else if Tensor.size rest ≠ 1 then .error .wrongKind
    else if n < 3 || m < (if Euler.isFree turn then 3 else 2) then .error .tooFewElements
    else return Euler.ofMatrix turn
  | _ => .error .tooFewElements

/-- Whether a nested list is a rotation of order three. -/
def isRotation? (r : Nested Float) (tolerance : Float) : Except Fault Bool := do
  match ← Matrix3.ofNested? r with
  | some m => return m.isRotation tolerance
  | none => return false

/-- Whether a nested list is an affine matrix of order four. -/
def isAffine? (m : Nested Float) : Except Fault Bool := do
  match ← Matrix4.ofNested? m with
  | .inl m => return m.isAffine
  | .inr _ => return false

/-- The inverse of an affine map read off the upper left part of an array, unless its block is
singular. An array with more than two axes, or with too small a block, fails only when its block
is not singular. -/
def invert? (m : Nested Float) : Except Fault (Option (Matrix4 Float)) := do
  let t ← m.requireTensor
  let block ← t.upperLeft? 3
  match ← block.determinants? with
  | [det] =>
    if !Scalar.isFinite det || Scalar.abs det < Matrix4.singularBound then return none
    else
      let order := block.shape.getLastD 0
      if order ≠ 1 && order ≠ 3 then .error .shapeMismatch
      else
        let offset ← t.upperColumn? 3 3
        match block.rows?, offset.entries with
        | some [[a, b, c], [d, e, f], [g, h, i]], [x, y, z] =>
          return (Matrix4.affine ⟨⟨a, b, c⟩, ⟨d, e, f⟩, ⟨g, h, i⟩⟩ ⟨x, y, z⟩).invert?
        | _, _ => .error .shapeMismatch
  | _ => .error .notSingle

/-- The images of an array of points, whose last axis is taken for their coordinates, under the
map read off the upper left part of an array. -/
def mapped? (points m : Tensor Float) : Except Fault (Tensor Float) := do
  let block ← m.upperLeft? 3
  let turned ← points.product? block.reversed
  turned.combine? (· + ·) (← m.upperColumn? 3 3)

/-- The images of nested points under a nested map. -/
def images? (points m : Nested Float) : Except Fault (Tensor Float) := do
  let points ← points.requireTensor
  mapped? points (← m.requireTensor)

/-- The corners of a box whose bounds broadcast against eight rows of three. -/
def corners? (lo hi : Nested Float) : Except Fault (Tensor Float) := do
  let lo ← lo.requireTensor
  let hi ← hi.requireTensor
  let shape := do
    let s ← Tensor.broadcastShape? hi.shape lo.shape
    Tensor.broadcastShape? s [8, 3]
  match shape with
  | none => .error .shapeMismatch
  | some shape =>
    let bits : Tensor Float := ⟨[8, 3], cornerBits.flatMap Vec3.toList⟩
    let spread := (lo.broadcastTo shape).zip (hi.broadcastTo shape)
    return ⟨shape, spread.zipWith (fun (l, h) b => l + b * (h - l)) (bits.broadcastTo shape)⟩

/-- The bounds of the image of a box, taken over the first axis of its array of corners. -/
def boundImage? (lo hi m : Nested Float) : Except Fault (Tensor Float × Tensor Float) := do
  let corners ← corners? lo hi
  let images ← mapped? corners (← m.requireTensor)
  let rest := images.shape.drop 1
  match images.outerRows? with
  | none => .error .shapeMismatch
  | some [] =>
    if Tensor.size rest = 0 then return (⟨rest, []⟩, ⟨rest, []⟩) else .error .shapeMismatch
  | some (row :: rows) =>
    let extreme (f : Float → Float → Float) : Tensor Float :=
      ⟨rest, rows.foldl (List.zipWith f) row⟩
    return (extreme Scalar.least, extreme Scalar.greatest)

end Affine

end SparseVoxel

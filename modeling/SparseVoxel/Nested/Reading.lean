import SparseVoxel.Matrix.Four
import SparseVoxel.Number

/-!
# Vectors and matrices from nested lists

Where a vector is expected, a bare number stands for three equal entries. A matrix of another
shape than the expected one is no matrix, but a list that is not rectangular is refused.
`Tensor.shapeFor?` finds the edge length that a shape leaves open.
-/

namespace SparseVoxel

/-- The most axes that an array may have. -/
def Tensor.mostAxes : Nat :=
  64

/-- The tensor of a nested list that has to be rectangular and not nested too deeply. -/
def Nested.requireTensor {α : Type} (v : Nested α) : Except Fault (Tensor α) :=
  match v.toTensor? with
  | some t => if Tensor.mostAxes < t.shape.length then .error .tooManyAxes else .ok t
  | none => .error .ragged

/-- The entries of a nested list in threes, each replaced by what a step that may fail makes of
it. -/
def Nested.triples? {α β : Type} (f : α → Except Fault β) (v : Nested α) :
    Except Fault (List (Vec3 β)) := do
  let t ← v.requireTensor
  let entries ← t.entries.mapM f
  if entries.length % 3 ≠ 0 then .error .shapeMismatch
  else return (Tensor.chunks 3 (entries.length / 3) entries).filterMap Vec3.ofList?

/-- The shape of an array of the given number of entries. A negative edge length is open: it is
found from the others, which have to hold entries. -/
def Tensor.shapeFor? (edges : List Int) (count : Nat) : Except Fault (List Nat) :=
  let known := Tensor.size ((edges.filter (0 ≤ ·)).map Int.toNat)
  match edges.filter (· < 0) with
  | [] => if known = count then .ok (edges.map Int.toNat) else .error .shapeMismatch
  | [_] =>
    if known = 0 ∨ count % known ≠ 0 then .error .shapeMismatch
    else .ok (edges.map fun n => if n < 0 then count / known else n.toNat)
  | _ => .error .shapeMismatch

/-- A nested list of numbers with each of them in binary64. -/
def Nested.toFloats? (v : Nested Number) : Except Fault (Nested Float) :=
  v.mapM Number.toFloat?

namespace Vec3

/-- A vector of exactly three entries, or one number for all of them. -/
def ofNested? (v : Nested Float) : Except Fault (Vec3 Float) := do
  let t ← v.requireTensor
  match t.shape, t.entries with
  | [], [a] => return .replicate a
  | [3], [x, y, z] => return ⟨x, y, z⟩
  | shape, _ => .error (.notVectorShape shape)

/-- A vector of three entries in any arrangement, or one number for all of them, given along with
the way it is shown when it is refused. -/
def ofShown? (shown : String) (v : Nested Float) : Except Fault (Vec3 Float) := do
  let t ← v.requireTensor
  match t.entries with
  | [a] => return .replicate a
  | [x, y, z] => return ⟨x, y, z⟩
  | _ => .error (.notVector shown)

/-- A vector of three entries in any arrangement, or one number for all of them. -/
def ofEntries? (v : Nested Float) : Except Fault (Vec3 Float) :=
  ofShown? (v.text Decimal.shortest) v

/-- A vector given as a row of items, which is shown in parentheses. -/
def ofRow? (items : List (Nested Float)) : Except Fault (Vec3 Float) :=
  ofShown? (Nested.tupleText Decimal.shortest items) (.node items)

/-- Exactly three numbers in any arrangement. -/
def ofThree? (v : Nested Float) : Except Fault (Vec3 Float) := do
  let t ← v.requireTensor
  match t.entries with
  | [x, y, z] => return ⟨x, y, z⟩
  | _ => .error .shapeMismatch

end Vec3

namespace Matrix3

/-- A matrix of shape three by three, or nothing for another shape. -/
def ofNested? (v : Nested Float) : Except Fault (Option (Matrix3 Float)) := do
  let t ← v.requireTensor
  match t.shape, t.entries with
  | [3, 3], [a, b, c, d, e, f, g, h, i] => return some ⟨⟨a, b, c⟩, ⟨d, e, f⟩, ⟨g, h, i⟩⟩
  | _, _ => return none

end Matrix3

namespace Matrix4

/-- A matrix of shape four by four, or the shape that was found instead. -/
def ofNested? (v : Nested Float) : Except Fault (Matrix4 Float ⊕ List Nat) := do
  let t ← v.requireTensor
  match t.rows?.bind ofRows? with
  | some m => return .inl m
  | none => return .inr t.shape

/-- A matrix that has to have shape four by four. -/
def requireNested (v : Nested Float) : Except Fault (Matrix4 Float) := do
  match ← ofNested? v with
  | .inl m => return m
  | .inr shape => .error (.notMatrixShape shape)

end Matrix4

end SparseVoxel

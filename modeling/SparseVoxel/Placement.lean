import SparseVoxel.Affine.Input

/-!
# Where the lattice lies in the world

A `Placement` maps index space to world space by an affine matrix. It is changed by composing an
operation on the index side, before the map, or on the world side, after it; an operation that
would leave a singular matrix is refused. A new placement has to be affine as well, and a copy is
a new placement.
-/

namespace SparseVoxel

/-- The map from index space to world space. -/
structure Placement (K : Type) where
  matrix : Matrix4 K
deriving BEq

namespace Placement

/-- The side on which an operation is composed. -/
inductive Side where
  /-- Before the map, on index coordinates. -/
  | index
  /-- After the map, on world coordinates. -/
  | world
deriving DecidableEq, Repr

variable {K : Type} [Scalar K]

/-- The placement that takes index coordinates for world coordinates. -/
def identity : Placement K :=
  ⟨.one⟩

/-- The placement of an affine matrix that can be inverted. -/
def ofMatrix? (m : Matrix4 K) : Except Fault (Placement K) :=
  if !m.isAffine then .error .placementNotAffine
  else if !m.isRegular then .error .placementSingular
  else .ok ⟨m⟩

theorem ofMatrix?_eq_ok_iff {m : Matrix4 K} {t : Placement K} :
    ofMatrix? m = .ok t ↔ (m.isAffine = true ∧ m.isRegular = true) ∧ t = ⟨m⟩ := by
  unfold ofMatrix?
  cases m.isAffine with
  | false => simp
  | true => cases m.isRegular <;> simp [eq_comm]

/-- The placement with the given edge lengths of a voxel. -/
def ofEdgeLengths? (size : Vec3 K) : Except Fault (Placement K) :=
  ofMatrix? (.scaling size)

/-- The map from world space to index space. -/
def inverse? (t : Placement K) : Option (Matrix4 K) :=
  t.matrix.invert?

/-- The matrix after composing an operation on a side. -/
def composed (t : Placement K) (side : Side) (op : Matrix4 K) : Matrix4 K :=
  match side with
  | .index => t.matrix.mul op
  | .world => op.mul t.matrix

/-- Composes an operation, unless the result would be singular. -/
def compose? (t : Placement K) (side : Side) (op : Matrix4 K) :
    Except Fault (Placement K) :=
  let m := t.composed side op
  if m.isRegular then .ok ⟨m⟩ else .error .operationSingular

theorem compose?_eq_ok_iff {t t' : Placement K} {side : Side} {op : Matrix4 K} :
    t.compose? side op = .ok t' ↔
      (t.composed side op).isRegular = true ∧ t' = ⟨t.composed side op⟩ := by
  unfold compose?
  cases h : (t.composed side op).isRegular <;> simp [h, eq_comm]

/-- Composes a scale. -/
def scale? (t : Placement K) (side : Side) (v : Vec3 K) : Except Fault (Placement K) :=
  t.compose? side (.scaling v)

/-- Composes a shift. -/
def shift? (t : Placement K) (side : Side) (v : Vec3 K) :
    Except Fault (Placement K) :=
  t.compose? side (.shift v)

/-- Composes a rotation about an axis given by name. -/
def rotate? [Trigonometry K] (t : Placement K) (side : Side) (axis : String) (angle : K) :
    Except Fault (Placement K) := do
  t.compose? side (.ofLinear (← Axis.rotation? axis angle))

/-- Composes an arbitrary affine matrix on the world side. -/
def composeWorld? (t : Placement K) (m : Matrix4 K) : Except Fault (Placement K) :=
  if m.isAffine then t.compose? .world m else .error .operandNotAffine

theorem composeWorld?_eq_ok_iff {t t' : Placement K} {m : Matrix4 K} :
    t.composeWorld? m = .ok t' ↔ m.isAffine = true ∧ t.compose? .world m = .ok t' := by
  unfold composeWorld?
  cases m.isAffine <;> simp

/-- A copy, which has to pass the checks of a new placement. -/
def copy? (t : Placement K) : Except Fault (Placement K) :=
  ofMatrix? t.matrix

/-- The world-space length of each index axis. -/
def edgeLengths [Trigonometry K] (t : Placement K) : Vec3 K :=
  t.matrix.linear.columnNorms

/-- The matrix from the index space of `target` to the index space of `source`. -/
def between? (source target : Placement K) : Except Fault (Matrix4 K) :=
  match source.inverse? with
  | some inv => .ok (inv.mul target.matrix)
  | none => .error .noInverse

/-- The world-space position of a point of index space. -/
def toWorld (t : Placement K) (p : Vec3 K) : Vec3 K :=
  t.matrix.apply p

/-- The index-space position of a point of world space. -/
def toIndex? (t : Placement K) (p : Vec3 K) : Option (Vec3 K) :=
  t.inverse?.map fun inv => inv.apply p

/-- The placement of a nested matrix. -/
def ofNested? (v : Nested Float) : Except Fault (Placement Float) := do
  match ← Matrix4.ofNested? v with
  | .inl m => ofMatrix? m
  | .inr _ => .error .placementNotAffine

/-- Composes a nested matrix on the world side. -/
def composeNested? (t : Placement Float) (v : Nested Float) :
    Except Fault (Placement Float) := do
  match ← Matrix4.ofNested? v with
  | .inl m => t.composeWorld? m
  | .inr _ => .error .operandNotAffine

/-- The world-space positions of an array of points of index space. -/
def pointsToWorld? (t : Placement Float) (points : Nested Float) :
    Except Fault (Tensor Float) := do
  Affine.mapped? (← points.requireTensor) t.matrix.toTensor

/-- The index-space positions of an array of points of world space. -/
def pointsToIndex? (t : Placement Float) (points : Nested Float) :
    Except Fault (Tensor Float) := do
  let points ← points.requireTensor
  match t.inverse? with
  | some inv => Affine.mapped? points inv.toTensor
  | none => .error .noInverse

/-- The placement as text. -/
def text [Trigonometry K] (t : Placement K) : String :=
  "LinearTransform(voxel_size=" ++ Scalar.listText t.edgeLengths.toList ++ ")"

end Placement

end SparseVoxel

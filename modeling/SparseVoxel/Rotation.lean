import SparseVoxel.Matrix.Elimination
import SparseVoxel.Text.Lowercase

/-!
# Rotations and Euler angles

Euler angles are given per axis, in radians. A `RotationOrder` names the order of the factors of
the composed matrix from left to right: in the order `zyx` the rotation about x acts first.
`Euler.ofMatrix` recovers the angles of the order `zyx`; when the axes of the outer rotations
coincide, only their sum is determined and the angle about z is taken to be zero.
-/

namespace SparseVoxel

open Scalar

namespace Axis

/-- The axis of a name in lowercase. -/
def ofName? : String → Option Axis
  | "x" => some .x
  | "y" => some .y
  | "z" => some .z
  | _ => none

/-- The right-handed rotation about an axis. -/
def rotation {K : Type} [Scalar K] [Trigonometry K] (axis : Axis) (angle : K) : Matrix3 K :=
  let c := Trigonometry.cos angle
  let s := Trigonometry.sin angle
  match axis with
  | .x => ⟨⟨1, 0, 0⟩, ⟨0, c, -s⟩, ⟨0, s, c⟩⟩
  | .y => ⟨⟨c, 0, s⟩, ⟨0, 1, 0⟩, ⟨-s, 0, c⟩⟩
  | .z => ⟨⟨c, -s, 0⟩, ⟨s, c, 0⟩, ⟨0, 0, 1⟩⟩

end Axis

/-- An infinite angle has neither sine nor cosine. -/
def requireAngle {K : Type} [Scalar K] (angle : K) : Except Fault Unit :=
  if Scalar.isFinite angle || Scalar.isNaN angle then .ok () else .error .infiniteAngle

/-- The rotation about an axis given by name; the angle is looked at first. -/
def Axis.rotation? {K : Type} [Scalar K] [Trigonometry K] (name : String) (angle : K) :
    Except Fault (Matrix3 K) := do
  requireAngle angle
  match Axis.ofName? name with
  | some axis => return axis.rotation angle
  | none => .error (.unknownAxis name)

/-- The order of the factors of a composed rotation, read from left to right. -/
inductive RotationOrder where
  | xyz
  | xzy
  | yxz
  | yzx
  | zxy
  | zyx
deriving DecidableEq, Repr

namespace RotationOrder

/-- The axes of the factors from left to right. -/
def axes : RotationOrder → List Axis
  | .xyz => [.x, .y, .z]
  | .xzy => [.x, .z, .y]
  | .yxz => [.y, .x, .z]
  | .yzx => [.y, .z, .x]
  | .zxy => [.z, .x, .y]
  | .zyx => [.z, .y, .x]

/-- The order of a name, read without regard to case. -/
def ofName? (name : String) : Except Fault RotationOrder :=
  match Text.lowercase name with
  | "xyz" => .ok .xyz
  | "xzy" => .ok .xzy
  | "yxz" => .ok .yxz
  | "yzx" => .ok .yzx
  | "zxy" => .ok .zxy
  | "zyx" => .ok .zyx
  | other => .error (.unknownOrder other)

end RotationOrder

namespace Euler

variable {K : Type} [Scalar K] [Trigonometry K]

/-- The rotation composed of one rotation per axis. -/
def toMatrix (order : RotationOrder) (angles : Vec3 K) : Matrix3 K :=
  order.axes.foldl (fun r axis => r.mul (axis.rotation (angles.get axis))) .one

/-- The composed rotation, for angles none of which is infinite. -/
def toMatrix? (order : RotationOrder) (angles : Vec3 K) : Except Fault (Matrix3 K) := do
  let _ ← angles.mapM requireAngle
  return toMatrix order angles

/-- Below this cosine of the middle angle the outer axes count as coincident. -/
def gimbalBound : K :=
  Scalar.tenth 10

/-- The cosine of the middle angle of a rotation, up to rounding. -/
def middleCosine (r : Matrix3 K) : K :=
  Trigonometry.hypot r.rows.x.x r.rows.y.x

/-- Whether the outer rotations have distinct axes. -/
def isFree (r : Matrix3 K) : Bool :=
  decide (gimbalBound < middleCosine r)

/-- The angles of a rotation in the order `zyx`. -/
def ofMatrix (r : Matrix3 K) : Vec3 K :=
  let cosine := middleCosine r
  if isFree r then
    ⟨Trigonometry.atan2 r.rows.z.y r.rows.z.z, Trigonometry.atan2 (-r.rows.z.x) cosine,
      Trigonometry.atan2 r.rows.y.x r.rows.x.x⟩
  else if r.rows.z.x < 0 then
    ⟨Trigonometry.atan2 r.rows.x.y r.rows.y.y, Trigonometry.pi / 2, 0⟩
  else
    ⟨Trigonometry.atan2 (-r.rows.x.y) r.rows.y.y, -Trigonometry.pi / 2, 0⟩

end Euler

namespace Matrix3

variable {K : Type} [Scalar K]

/-- Whether a matrix is near orthonormal and keeps orientation. -/
def isRotation (m : Matrix3 K) (tolerance : K) : Bool :=
  (m.transpose.mul m).near (Scalar.tenth 5) tolerance one && decide (0 < m.det)

end Matrix3

end SparseVoxel

import SparseVoxel.Matrix.Four
import SparseVoxel.Rotation
import SparseVoxel.Box.Input

/-!
# Affine maps of points and boxes

`Affine.pivoted` builds the matrix that scales and rotates about a pivot and then shifts.
`Affine.boundImage` bounds the image of a box by the images of its eight corners; rounding that
bound outward gives the voxels an image can touch.
-/

namespace SparseVoxel.Affine

open Scalar

variable {K : Type} [Scalar K]

/-- `T(shift) · T(pivot) · R · S · T(-pivot)`, leaving out the factors that are absent. -/
def pivoted (pivot scale : Option (Vec3 K)) (rotation : Option (Matrix3 K))
    (shift : Option (Vec3 K)) : Matrix4 K :=
  let m : Matrix4 K := .one
  let m := match pivot with
    | some p => (Matrix4.shift (-p)).mul m
    | none => m
  let m := match scale with
    | some s => (Matrix4.scaling s).mul m
    | none => m
  let m := match rotation with
    | some r => (Matrix4.ofLinear r).mul m
    | none => m
  let m := match pivot with
    | some p => (Matrix4.shift p).mul m
    | none => m
  match shift with
  | some t => (Matrix4.shift t).mul m
  | none => m

/-- The choices between the lower and the upper bound on each axis, the x axis slowest. -/
def cornerBits : List (Vec3 K) :=
  [0, 1].flatMap fun x => [0, 1].flatMap fun y => [0, 1].map fun z => ⟨x, y, z⟩

/-- The corner of a box that a choice selects. -/
def corner (lo hi bits : Vec3 K) : Vec3 K :=
  lo + bits.zipWith (· * ·) (hi - lo)

/-- The eight corners of a box. -/
def corners (lo hi : Vec3 K) : List (Vec3 K) :=
  cornerBits.map (corner lo hi)

/-- The least and the greatest entries of points, axis by axis. -/
def bounds (p : Vec3 K) (ps : List (Vec3 K)) : Vec3 K × Vec3 K :=
  (ps.foldl (Vec3.zipWith least) p, ps.foldl (Vec3.zipWith greatest) p)

/-- The bounds of the images of the eight corners of a box. -/
def boundImage (lo hi : Vec3 K) (m : Matrix4 K) : Vec3 K × Vec3 K :=
  match (corners lo hi).map m.apply with
  | [] => (lo, hi)
  | p :: ps => bounds p ps

/-- The least box of voxels that encloses the image of a box of voxels. -/
def imageBox (m : Matrix4 K) (b : Box) : Box :=
  let (lo, hi) := boundImage b.lo.toScalars b.hi.toScalars m
  Box.roundOut lo hi

/-- The least box of voxels that encloses the image of a box, if no bound of the box is too large
and the image is bounded. -/
def imageBox? (m : Matrix4 K) (b : Box) : Except Fault Box := do
  let (lo, hi) ← b.toScalars?
  let (lo, hi) := boundImage lo hi m
  Box.roundOut? lo hi

/-- Where every scalar is finite, every image is bounded. -/
theorem imageBox?_eq_ok (h : ∀ a : K, Scalar.isFinite a = true) (m : Matrix4 K) (b : Box) :
    imageBox? m b = .ok (imageBox m b) := by
  rw [imageBox?, Box.toScalars?_eq_ok h]
  exact Box.roundOut?_eq_ok (fun _ => h _) (fun _ => h _)

end SparseVoxel.Affine

import SparseVoxel.Affine.PivotMap
import SparseVoxel.Grid.Uniform
import SparseVoxel.Settings

/-!
# Resamplers

A `Resampler` holds the affine matrix from the index space of a source grid to that of a
destination, and the inverse of it unless it is singular. From these it derives the region of the
destination that can receive anything (`reach?`), the part of the source that a region of the
destination looks at (`preimage?`), and how a region is treated (`treatment?`).
-/

namespace SparseVoxel

/-- A map from one grid's index space to another's, and how it is to be applied. -/
structure Resampler (K : Type) where
  forward : Matrix4 K
  inverse : Option (Matrix4 K)
  /-- Whether uniform tiles are copied by filling. -/
  copyTiles : Bool
  /-- Whether samples may be taken in parallel. -/
  parallel : Bool
  /-- By how many voxels the reach of the map is padded at least. -/
  margin : Except Fault Number
  /-- The parameters, of a resampler that was given by some. -/
  map : Option (PivotMap K)

/-- How a region of the destination is treated. -/
inductive Treatment (V : Type) where
  /-- Nothing is written. -/
  | skip
  /-- Every voxel gets one state. -/
  | fill (state : Voxel V)
  /-- Every voxel is sampled. -/
  | sample

namespace Resampler

variable {K : Type} [Scalar K]

/-- Padding by the radius of a sampler, but by a margin at least. -/
def padding (margin : Number) (radius : Int) : Number :=
  if margin.exceeds radius then margin else .int radius

/-- The region of the destination that can hold anything but background, when the active voxels
of the source lie in a box. The margin is looked at when the image of the box is known. -/
def reach? (r : Resampler K) (active : Box) (radius : Int) : Except Fault Box := do
  let (lo, hi) ← active.toScalars?
  let (lo, hi) := Affine.boundImage lo hi r.forward
  let margin ← r.margin
  let image ← Box.roundOut? lo hi
  image.expandBy? (padding margin radius)

/-- The source voxels around the inverse images of the voxel centres of a region. -/
def preimage? (r : Resampler K) (region : Box) : Except Fault Box :=
  match r.inverse with
  | some inv => Affine.imageBox? inv region
  | none => do
    let _ : Vec3 K × Vec3 K ← region.toScalars?
    .error .noInverse

/-- How a region is treated. A region that sees nothing but background within the radius of the
sampler is skipped; one that looks into tiles of one state only is filled. -/
def treatment? {V : Type} {k : Nat} [BEq V] (r : Resampler K) (source : Grid V k) (region : Box)
    (radius : Int) : Except Fault (Treatment V) := do
  let seen ← r.preimage? region
  let around ← source.examine? (seen.expand radius) false
  if around.any source.isUnset then return .skip
  else if r.copyTiles then
    match ← source.examine? seen true with
    | some state => return if source.isUnset state then .sample else .fill state
    | none => return .sample
  else return .sample

end Resampler

/-- How a resampler is to work, beyond its map. The margin and the tolerance are looked at when they
are needed. -/
structure Resampler.Options (K : Type) where
  copyTiles : Bool
  parallel : Bool
  margin : Except Fault Number
  splitTolerance : Except Fault K

namespace Resampler

variable {K : Type} [Scalar K]

/-- The resampler of a matrix, which has to be affine. -/
def ofMatrix? (o : Options K) (m : Matrix4 K) : Except Fault (Resampler K) :=
  if m.isAffine then
    .ok {
      forward := m
      inverse := m.invert?
      copyTiles := o.copyTiles
      parallel := o.parallel
      margin := o.margin
      map := none }
  else .error (.notAffine (Scalar.listText (m.bottom.toList ++ [m.corner])))

variable [Trigonometry K]

/-- The resampler of a pivoted map, with the inverse built from its parameters. -/
def ofMap? (o : Options K) (map : PivotMap K) : Except Fault (Resampler K) := do
  let base ← ofMatrix? o (← map.toMatrix?)
  return { base with inverse := ← map.inverseMatrix?, map := some map }

/-- The resampler of a matrix that can be split into scale, rotation and shift. The tolerance does
not matter when the matrix is not affine or not finite. -/
def ofSplit? (o : Options K) (m : Matrix4 K) : Except Fault (Option (Resampler K)) := do
  if m.isAffine && m.isFinite then
    match AffineParts.ofMatrix? m (← o.splitTolerance) with
    | some d => return some (← ofMap? o d.toPivotMap)
    | none => return none
  else return none

/-- A map that a resampler was made of, as text. -/
def mapText (m : PivotMap K) : String :=
  let triple (v : Vec3 K) := "(" ++ ", ".intercalate (v.toList.map Scalar.text) ++ ")"
  "GridTransformer(pivot=" ++ triple m.pivot ++ ", scale=" ++ triple m.scale ++ ", rotation=" ++
    triple m.rotation ++ ", translation=" ++ triple m.shift ++ ", rotation_order='" ++
    m.order ++ "')"

end Resampler

end SparseVoxel

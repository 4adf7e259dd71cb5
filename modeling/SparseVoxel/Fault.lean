import SparseVoxel.Nested.Basic

/-!
# Why an operation refuses its input

`Fault` lists the causes, and `Fault.message` gives the wording of those that explain themselves;
the others are plain mismatches of shapes, ranges or kinds.
-/

namespace SparseVoxel

/-- A cause of failure. -/
inductive Fault where
  /-- What is no number was to become an integer. -/
  | notANumber
  /-- An infinity was to become an integer. -/
  | infinite
  /-- An integer does not fit into the type of numbers it should become. -/
  | integerTooLarge
  /-- A nested list is not rectangular. -/
  | ragged
  /-- A list is nested more deeply than an array may have axes. -/
  | tooManyAxes
  /-- An array would have more bytes than can be counted. -/
  | arrayTooLarge
  /-- An array would need more memory than there is. -/
  | outOfMemory
  /-- Two shapes do not fit each other. -/
  | shapeMismatch
  /-- A matrix to be inverted is not square. -/
  | notSquare
  /-- A question about one matrix was asked about several. -/
  | notSingle
  /-- A list has too few elements, or an array too few axes. -/
  | tooFewElements
  /-- A sample reads outside its window. -/
  | outsideWindow
  /-- A block edge or a shift is given by a negative power of two. -/
  | negativeShift
  /-- The sine and cosine of an infinite angle. -/
  | infiniteAngle
  /-- An argument of another kind was expected. -/
  | wrongKind
  /-- Something that is no name was used as one. -/
  | notName
  /-- Numbers were to be compared with something that is none. -/
  | incomparable
  /-- Integers of 64 bits with a sign and without one have no shift in common. -/
  | mixedSigns
  /-- Too many or too few arguments. -/
  | wrongArguments
  /-- A setting that does not exist. -/
  | unknownSetting
  /-- A grid or resampler that is not there. -/
  | unknownName
  /-- An empty box has no voxel whose state could be shared. -/
  | nothingToProbe
  /-- A stored block has no voxel in common with the box being probed. -/
  | noOverlap
  /-- Nothing can be mapped back through a map without inverse. -/
  | noInverse
  /-- A rotation about an axis that is none of the three. -/
  | unknownAxis (name : String)
  /-- An order of rotation that does not name each axis once. -/
  | unknownOrder (name : String)
  /-- A kind of values that does not exist. -/
  | unknownValueKind (name : String)
  /-- A sampler that does not exist. -/
  | unknownSampler (name : String)
  /-- Something that is no sampler, by the name of its kind. -/
  | notASampler (kind : String)
  /-- An array of another shape than a vector. -/
  | notVectorShape (shape : List Nat)
  /-- Something with another number of entries than a vector, as it is shown to the user. -/
  | notVector (shown : String)
  /-- An array of another shape than a matrix of order four. -/
  | notMatrixShape (shape : List Nat)
  /-- A resampler of a matrix whose bottom row is not `(0, 0, 0, 1)`. -/
  | notAffine (bottomRow : String)
  /-- A placement by a matrix that is not affine. -/
  | placementNotAffine
  /-- A placement by a matrix that cannot be inverted. -/
  | placementSingular
  /-- An operation after which a placement could not be inverted. -/
  | operationSingular
  /-- A matrix composed with a placement that is not affine. -/
  | operandNotAffine

namespace Fault

/-- The names of the kinds of values, as they are listed to the user. -/
def valueKindNames : String :=
  "['bool', 'int32', 'int64', 'float', 'double', 'vec3s', 'vec3d']"

/-- The explanation of a fault, for those that have one. -/
def message : Fault → Option String
  | unknownAxis name => some ("Unknown rotation axis '" ++ name ++ "'. Available: ['x', 'y', 'z']")
  | unknownOrder name =>
    some ("Unknown rotation order '" ++ name ++ "'. Expected a permutation of 'xyz'")
  | unknownValueKind name =>
    some ("Unknown value type '" ++ name ++ "'. Available: " ++ valueKindNames)
  | unknownSampler name =>
    some ("Unknown sampler '" ++ name ++ "'. Available: ['point', 'box', 'quadratic']")
  | notASampler kind => some ("Expected a sampler, got " ++ kind)
  | notVectorShape shape => some ("Expected a 3-vector, got shape " ++ Tensor.shapeText shape)
  | notVector shown => some ("Expected a 3-vector, got " ++ shown)
  | notMatrixShape shape => some ("Expected a 4x4 matrix, got shape " ++ Tensor.shapeText shape)
  | notAffine row => some ("Matrix is not affine: bottom row is " ++ row)
  | placementNotAffine => some "LinearTransform requires a 4x4 affine matrix"
  | placementSingular => some "LinearTransform requires an invertible matrix"
  | operationSingular => some "Operation would make the transform singular"
  | operandNotAffine => some "post_matrix requires a 4x4 affine matrix"
  | _ => none

end Fault

end SparseVoxel

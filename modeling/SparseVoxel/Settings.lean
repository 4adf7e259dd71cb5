import SparseVoxel.Datum

/-!
# Settings

The defaults that the operations of the library fall back on. A setting keeps whatever it is given;
only the operation that needs it looks whether it can be used, and refuses it if not.
-/

namespace SparseVoxel

/-- The name of the sampler that is used where none is asked for. -/
def standardSampler : String :=
  "point"

/-- The size exponent of the blocks of a new grid where none is asked for. -/
def standardExponent : Int :=
  3

/-- The tolerance to which a split matrix has to be rebuilt where none is given. -/
def standardTolerance : Float :=
  1e-8

/-- What the library assumes where nothing is said. -/
structure Settings where
  /-- The tolerance to which a split matrix has to be rebuilt. -/
  splitTolerance : Datum
  /-- By how many voxels the reach of a map is padded at least. -/
  margin : Datum
  /-- Whether uniform tiles are copied by filling. -/
  copyTiles : Datum
  /-- Whether samples may be taken in parallel; the outcome does not depend on it. -/
  parallel : Datum
  /-- The order of rotation of a map given by its parameters. -/
  rotationOrder : Datum
  /-- The sampler that is used where none is asked for. -/
  sampler : Datum
  /-- The size exponent of the blocks of a new grid. -/
  blockExponent : Datum

namespace Settings

/-- The settings of a library that nothing was said to. -/
def standard : Settings where
  splitTolerance := .number (.real standardTolerance)
  margin := .number (.int 1)
  copyTiles := .number (.bool true)
  parallel := .number (.bool true)
  rotationOrder := .text "zxy"
  sampler := .text standardSampler
  blockExponent := .number (.int standardExponent)

/-- The tolerance as a number; without one the standard tolerance holds. -/
def splitTolerance? (s : Settings) : Except Fault Float :=
  match s.splitTolerance with
  | .null => .ok standardTolerance
  | .number n => n.toFloat?
  | .text _ => .error .incomparable
  | _ => .error .wrongKind

/-- The margin, which has to be a number. -/
def margin? (s : Settings) : Except Fault Number :=
  match s.margin with
  | .number n => .ok n
  | _ => .error .wrongKind

/-- The order of rotation, which has to be a name. -/
def rotationOrder? (s : Settings) : Except Fault String :=
  match s.rotationOrder with
  | .text name => .ok name
  | _ => .error .notName

end Settings

end SparseVoxel

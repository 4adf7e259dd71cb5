import SparseVoxel.Value.Component
import SparseVoxel.Value.Basic
import SparseVoxel.Text.Lowercase

/-!
# Kinds of values

`ValueKind.Value` gives the type of the values of a named kind, with equality, blending and
conversion for all of them. A value leaves a grid as nested numbers and enters another one through
`cast?`.
-/

namespace SparseVoxel

/-- The kinds of values a grid may hold. -/
inductive ValueKind where
  | bool
  | int32
  | int64
  | single
  | double
  | single3
  | double3
deriving DecidableEq, Repr

namespace ValueKind

/-- The name of a kind. -/
def name : ValueKind → String
  | .bool => "bool"
  | .int32 => "int32"
  | .int64 => "int64"
  | .single => "float"
  | .double => "double"
  | .single3 => "vec3s"
  | .double3 => "vec3d"

/-- The name of the type of a component. -/
def componentName : ValueKind → String
  | .bool => "bool"
  | .int32 => "int32"
  | .int64 => "int64"
  | .single | .single3 => "float32"
  | .double | .double3 => "float64"

/-- Whether a value has three components. -/
def isVector : ValueKind → Bool
  | .single3 | .double3 => true
  | _ => false

/-- The number of components of a value. -/
def channels (t : ValueKind) : Nat :=
  if t.isVector then 3 else 1

/-- Every kind, in the order in which they are listed. -/
def all : List ValueKind :=
  [.bool, .int32, .int64, .single, .double, .single3, .double3]

/-- The kind of a name, read without regard to case. -/
def ofName? (name : String) : Except Fault ValueKind :=
  match all.find? fun t => t.name == Text.lowercase name with
  | some t => .ok t
  | none => .error (.unknownValueKind name)

/-- The values of a kind. -/
abbrev Value : ValueKind → Type
  | .bool => Bool
  | .int32 => Int32
  | .int64 => Int64
  | .single => Float32
  | .double => Float
  | .single3 => Vec3 Float32
  | .double3 => Vec3 Float

instance : (t : ValueKind) → BEq t.Value
  | .bool => inferInstanceAs (BEq Bool)
  | .int32 => inferInstanceAs (BEq Int32)
  | .int64 => inferInstanceAs (BEq Int64)
  | .single => inferInstanceAs (BEq Float32)
  | .double => inferInstanceAs (BEq Float)
  | .single3 => inferInstanceAs (BEq (Vec3 Float32))
  | .double3 => inferInstanceAs (BEq (Vec3 Float))

instance : (t : ValueKind) → VoxelValue Float t.Value
  | .bool => inferInstanceAs (VoxelValue Float Bool)
  | .int32 => inferInstanceAs (VoxelValue Float Int32)
  | .int64 => inferInstanceAs (VoxelValue Float Int64)
  | .single => inferInstanceAs (VoxelValue Float Float32)
  | .double => inferInstanceAs (VoxelValue Float Float)
  | .single3 => inferInstanceAs (VoxelValue Float (Vec3 Float32))
  | .double3 => inferInstanceAs (VoxelValue Float (Vec3 Float))

instance : (t : ValueKind) → Sized t.Value
  | .bool => inferInstanceAs (Sized Bool)
  | .int32 => inferInstanceAs (Sized Int32)
  | .int64 => inferInstanceAs (Sized Int64)
  | .single => inferInstanceAs (Sized Float32)
  | .double => inferInstanceAs (Sized Float)
  | .single3 => inferInstanceAs (Sized (Vec3 Float32))
  | .double3 => inferInstanceAs (Sized (Vec3 Float))

/-- The value of nested numbers. -/
def cast? (t : ValueKind) (raw : Nested Number) : Except Fault t.Value :=
  match t with
  | .bool => (Packing.cast? raw : Except Fault Bool)
  | .int32 => (Packing.cast? raw : Except Fault Int32)
  | .int64 => (Packing.cast? raw : Except Fault Int64)
  | .single => (Packing.cast? raw : Except Fault Float32)
  | .double => (Packing.cast? raw : Except Fault Float)
  | .single3 => (Packing.cast? raw : Except Fault (Vec3 Float32))
  | .double3 => (Packing.cast? raw : Except Fault (Vec3 Float))

/-- The value of numbers that are converted one by one. -/
def castSeparately? (t : ValueKind) (ns : List Number) : Except Fault t.Value :=
  match t with
  | .bool => (Packing.castSeparately? ns : Except Fault Bool)
  | .int32 => (Packing.castSeparately? ns : Except Fault Int32)
  | .int64 => (Packing.castSeparately? ns : Except Fault Int64)
  | .single => (Packing.castSeparately? ns : Except Fault Float32)
  | .double => (Packing.castSeparately? ns : Except Fault Float)
  | .single3 => (Packing.castSeparately? ns : Except Fault (Vec3 Float32))
  | .double3 => (Packing.castSeparately? ns : Except Fault (Vec3 Float))

/-- Many values from nested numbers. -/
def castMany? (t : ValueKind) (raw : Nested Number) (count : Nat) : Except Fault (List t.Value) :=
  match t with
  | .bool => (Packing.castMany? raw count : Except Fault (List Bool))
  | .int32 => (Packing.castMany? raw count : Except Fault (List Int32))
  | .int64 => (Packing.castMany? raw count : Except Fault (List Int64))
  | .single => (Packing.castMany? raw count : Except Fault (List Float32))
  | .double => (Packing.castMany? raw count : Except Fault (List Float))
  | .single3 => (Packing.castMany? raw count : Except Fault (List (Vec3 Float32)))
  | .double3 => (Packing.castMany? raw count : Except Fault (List (Vec3 Float)))

/-- The components of a value. -/
def numbers : (t : ValueKind) → t.Value → List Number
  | .bool, v => Packing.numbers (v : Bool)
  | .int32, v => Packing.numbers (v : Int32)
  | .int64, v => Packing.numbers (v : Int64)
  | .single, v => Packing.numbers (v : Float32)
  | .double, v => Packing.numbers (v : Float)
  | .single3, v => Packing.numbers (v : Vec3 Float32)
  | .double3, v => Packing.numbers (v : Vec3 Float)

/-- A value as nested numbers: one number, or a list of its components. -/
def nested (t : ValueKind) (v : t.Value) : Nested Number :=
  match t.isVector, t.numbers v with
  | false, [n] => .leaf n
  | _, ns => .node (ns.map .leaf)

/-- A value as text, components in parentheses. -/
def text (t : ValueKind) (v : t.Value) : String :=
  let parts := (t.numbers v).map Number.text
  if t.isVector then "(" ++ ", ".intercalate parts ++ ")" else "".intercalate parts

end ValueKind

end SparseVoxel

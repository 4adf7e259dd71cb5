/-!
# States of voxels
-/

namespace SparseVoxel

/-- The state of a voxel: its value, and whether it is active. States are equal when their
activities agree and their values are equal as numbers. -/
structure Voxel (V : Type) where
  value : V
  active : Bool
deriving BEq, ReflBEq, LawfulBEq, DecidableEq, Repr

end SparseVoxel

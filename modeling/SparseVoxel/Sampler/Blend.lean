import SparseVoxel.Vec3

/-!
# Blending formulas

Each formula blends the readings around a position into one scalar. Readings are given by their
offset from a base voxel, the position by its fraction beyond that voxel. The linear one is
written as a chain of interpolations, so that equal readings are reproduced exactly.
-/

namespace SparseVoxel.Blend

open Scalar

variable {K : Type} [Scalar K]

/-- The value between two others at a fraction of the way. -/
def lerp (a b t : K) : K :=
  a + (b - a) * t

/-- The blend of the eight readings at offsets zero and one, first along z, then y, then x. -/
def trilinear (f : Vec3 K) (r : Coord → K) : K :=
  let line (x y : Int) : K := lerp (r ⟨x, y, 0⟩) (r ⟨x, y, 1⟩) f.z
  let plane (x : Int) : K := lerp (line x 0) (line x 1) f.y
  lerp (plane 0) (plane 1) f.x

/-- The value at `t` of the parabola through the values at minus one, zero and one. -/
def parabola (v0 v1 v2 t : K) : K :=
  let a := half * (v0 + v2) - v1
  let b := half * (v2 - v0)
  t * (t * a + b) + v1

/-- The blend of the 27 readings at offsets from minus one to one, along z, then y, then x. -/
def triquadratic (t : Vec3 K) (r : Coord → K) : K :=
  let line (x y : Int) : K := parabola (r ⟨x, y, -1⟩) (r ⟨x, y, 0⟩) (r ⟨x, y, 1⟩) t.z
  let plane (x : Int) : K := parabola (line x (-1)) (line x 0) (line x 1) t.y
  parabola (plane (-1)) (plane 0) (plane 1) t.x

end SparseVoxel.Blend

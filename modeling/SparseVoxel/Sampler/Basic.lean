import SparseVoxel.Sampler.Blend
import SparseVoxel.Grid.Window
import SparseVoxel.Value.Basic
import SparseVoxel.Settings
import SparseVoxel.Text.Lowercase

/-!
# Samplers

A `Sampler` reads a grid at a continuous position. It chooses a base voxel and reads the voxels of
its stencil around it: the nearest voxel alone, the eight voxels around the position, or the 27
voxels around the nearest one. The two blending samplers are active where some voxel of the stencil
that carries weight is active.

Sampling reads from a window, a dense copy of part of the grid, at coordinates relative to the
window. An index just below zero counts from the far end of the window; any other index outside is
refused.
-/

namespace SparseVoxel

/-- The ways of reading between voxels. -/
inductive Sampler where
  /-- The nearest voxel as it is. -/
  | point
  /-- A trilinear blend of eight voxels. -/
  | box
  /-- A triquadratic blend of 27 voxels. -/
  | quadratic
deriving DecidableEq, Repr

namespace Window

variable {V : Type}

/-- The index that an index into an axis of length `n` denotes. -/
def wrapIndex? (n : Nat) (i : Int) : Option Nat :=
  if 0 ≤ i ∧ i < n then some i.toNat
  else if -(n : Int) ≤ i ∧ i < 0 then some (i + n).toNat
  else none

/-- The voxel at an index relative to the window, if the index denotes one. -/
def cell? (w : Window V) (i : Coord) : Option (Voxel V) := do
  let d := w.box.dim
  let x ← wrapIndex? d.x i.x
  let y ← wrapIndex? d.y i.y
  let z ← wrapIndex? d.z i.z
  w.cells[(x * d.y + y) * d.z + z]?

end Window

namespace Sampler

/-- How far from a position a sampler may read. -/
def radius : Sampler → Nat
  | .point => 0
  | .box => 1
  | .quadratic => 2

/-- The name of a sampler. -/
def name : Sampler → String
  | .point => "point"
  | .box => "box"
  | .quadratic => "quadratic"

/-- The sampler as text. -/
def text (s : Sampler) : String :=
  let kind := match s with
    | .point => "PointSampler"
    | .box => "BoxSampler"
    | .quadratic => "QuadraticSampler"
  kind ++ "(radius=" ++ toString s.radius ++ ")"

/-- The sampler of a name, read without regard to case. -/
def ofName? (name : String) : Except Fault Sampler :=
  match [Sampler.point, .box, .quadratic].find? fun s => s.name == Text.lowercase name with
  | some s => .ok s
  | none => .error (.unknownSampler name)

/-- The offsets from its base voxel that a sampler reads. -/
def stencil : Sampler → List Coord
  | .point => [⟨0, 0, 0⟩]
  | .box => (Box.mk ⟨0, 0, 0⟩ ⟨1, 1, 1⟩).coords
  | .quadratic => (Box.mk ⟨-1, -1, -1⟩ ⟨1, 1, 1⟩).coords

variable {K : Type} [Scalar K]

/-- A base voxel and the position's fraction beyond it. -/
structure Anchor (K : Type) where
  base : Coord
  rest : Vec3 K

/-- The base voxel of a position. A blend needs finite coordinates, and the nearest voxel needs
coordinates that an array index could hold. -/
def anchor? (s : Sampler) (p : Vec3 K) : Except Fault (Anchor K) := do
  let base : Coord ← match s with
    | .point => p.mapM fun a =>
        match Scalar.index? (a + Scalar.half) with
        | some n => .ok n
        | none => .error .outsideWindow
    | .box => p.mapM Scalar.floor?
    | .quadratic => p.mapM fun a => Scalar.floor? (a + Scalar.half)
  return ⟨base, p - base.toScalars⟩

/-- Whether the voxel at an offset carries weight on one axis. -/
def weighs (s : Sampler) (rest : K) (offset : Int) : Bool :=
  match s with
  | .point => true
  | .box =>
    let weight := if offset = 1 then rest else Scalar.ofInt 1 - rest
    !(weight == Scalar.ofInt 0)
  | .quadratic => decide (offset = 0) || !(rest == Scalar.ofInt 0)

/-- Whether the voxel at an offset carries weight. -/
def touches (s : Sampler) (rest : Vec3 K) (offset : Coord) : Bool :=
  s.weighs rest.x offset.x && s.weighs rest.y offset.y && s.weighs rest.z offset.z

variable {V : Type} [VoxelValue K V]

/-- The sample at a fraction beyond the base voxel, given what is read at each offset from it. -/
def evaluate (s : Sampler) (rest : Vec3 K) (read : Coord → Voxel V) : Voxel V :=
  let on := s.stencil.any fun o => s.touches rest o && (read o).active
  match s with
  | .point => read ⟨0, 0, 0⟩
  | .box =>
    ⟨VoxelValue.blend fun channel => Blend.trilinear rest fun o => channel (read o).value, on⟩
  | .quadratic =>
    ⟨VoxelValue.blend fun channel => Blend.triquadratic rest fun o => channel (read o).value, on⟩

/-- The sample of a window at a position relative to it. -/
def readWindow? (s : Sampler) (w : Window V) (p : Vec3 K) : Except Fault (Voxel V) := do
  let a ← s.anchor? p
  if s.stencil.all fun o => (w.cell? (a.base + o)).isSome then
    return s.evaluate a.rest fun o => (w.cell? (a.base + o)).getD ⟨VoxelValue.zero K, false⟩
  else .error .outsideWindow

/-- The window that is read for a position whose floor is given. -/
def neighbourhood (s : Sampler) (base : Coord) : Box :=
  (Box.mk base base).expand (s.radius + 1)

/-- The sample of a grid at a position. -/
def readGrid? {k : Nat} (s : Sampler) (g : Grid V k) (p : Vec3 K) : Except Fault (Voxel V) :=
  match p.mapM (Scalar.index? : K → Option Int) with
  | some base =>
    let b := s.neighbourhood base
    s.readWindow? (g.window b) (p - b.lo.toScalars)
  | none => do
    let _ ← s.anchor? p
    .error .outsideWindow

/-- How a sampler may be asked for. -/
inductive Request where
  /-- None in particular. -/
  | none
  | named (name : String)
  | sampler (s : Sampler)
  /-- Something that is no sampler, by the name of its kind. -/
  | other (kind : String)

/-- The sampler that is asked for, the standard one where none is. -/
def Request.resolve? : Request → Except Fault Sampler
  | .none => ofName? standardSampler
  | .named name => ofName? name
  | .sampler s => .ok s
  | .other kind => .error (.notASampler kind)

end Sampler

end SparseVoxel

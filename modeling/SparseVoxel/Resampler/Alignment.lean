import SparseVoxel.Resampler.Traversal
import SparseVoxel.Placement

/-!
# Resampling onto the lattice of another grid

A `PlacedGrid` is a grid with its placement in the world. Aligning resamples a source so that it
lines up with a destination in the world: the map between the two index spaces is split into
scale, rotation and shift where that is possible, and applied as it is, without copying
tiles, where it is not. The destination is cleared first.
-/

namespace SparseVoxel

/-- A grid placed in the world. -/
structure PlacedGrid (K V : Type) (k : Nat) where
  grid : Grid V k
  placement : Placement K

namespace PlacedGrid

/-- A copy with a placement of its own, which is checked again. -/
def copy? {K V : Type} {k : Nat} [Scalar K] (p : PlacedGrid K V k) :
    Except Fault (PlacedGrid K V k) := do
  return { p with placement := ← p.placement.copy? }

/-- Carries out an operation on the grid that may be refused. The placement stays as it is. -/
def attempt {K V : Type} {k : Nat} {α : Type} (p : PlacedGrid K V k) (op : Grid.Attempt V k α) :
    Except Fault α × PlacedGrid K V k :=
  match EStateM.run op p.grid with
  | .ok a grid => (.ok a, { p with grid })
  | .error e grid => (.error e, { p with grid })

theorem attempt_of_ok {K V : Type} {k : Nat} {α : Type} {p : PlacedGrid K V k}
    {op : Grid.Attempt V k α} {a : α} {grid : Grid V k} (h : op p.grid = .ok a grid) :
    p.attempt op = (.ok a, { p with grid }) := by
  simp only [attempt, EStateM.run, h]

theorem attempt_of_error {K V : Type} {k : Nat} {α : Type} {p : PlacedGrid K V k}
    {op : Grid.Attempt V k α} {e : Fault} {grid : Grid V k} (h : op p.grid = .error e grid) :
    p.attempt op = (.error e, { p with grid }) := by
  simp only [attempt, EStateM.run, h]

end PlacedGrid

namespace Resampler

variable {K : Type} [Scalar K] [Trigonometry K]

/-- The resampler of the map between two index spaces. Unless the map can be split, tiles are
not copied. -/
def ofAlignment? (o : Options K) (forward : Matrix4 K) : Except Fault (Resampler K) := do
  match ← ofSplit? o forward with
  | some r => return r
  | none => ofMatrix? { o with copyTiles := false } forward

variable {V W : Type} {k m : Nat} [BEq V] [VoxelValue K V] [Sized V] [BEq W] [Sized W]

/-- Clears a destination and resamples a source onto its lattice. -/
def align (o : Options K) (machine : Machine) (sampler : Sampler) (transfer : Transfer V W)
    (source : Grid W m → Grid V k) (sourcePlacement destPlacement : Placement K) :
    Grid.Attempt W m Stats := do
  let relative ← Grid.Attempt.check (sourcePlacement.between? destPlacement)
  modify Grid.clear
  match relative.invert? with
  | none => return .none
  | some forward =>
    let r ← Grid.Attempt.check (ofAlignment? o forward)
    r.transform machine sampler transfer source

/-- Aligns by the sampler that is asked for; without one nothing is touched. -/
def alignBy (o : Options K) (machine : Machine) (request : Sampler.Request)
    (transfer : Transfer V W) (source : Grid W m → Grid V k)
    (sourcePlacement destPlacement : Placement K) : Grid.Attempt W m Stats := do
  let sampler ← Grid.Attempt.check request.resolve?
  align o machine sampler transfer source sourcePlacement destPlacement

end Resampler

/-- Clears a placed grid and resamples another one onto its lattice. -/
def PlacedGrid.align {K V W : Type} {k m : Nat} [Scalar K] [Trigonometry K] [BEq V]
    [VoxelValue K V] [Sized V] [BEq W] [Sized W] (o : Resampler.Options K) (machine : Machine)
    (request : Sampler.Request) (transfer : Transfer V W) (source : PlacedGrid K V k)
    (dest : PlacedGrid K W m) : Except Fault Stats × PlacedGrid K W m :=
  dest.attempt (Resampler.alignBy o machine request transfer (fun _ => source.grid)
    source.placement dest.placement)

end SparseVoxel

import SparseVoxel.Resampler.Region
import SparseVoxel.Resampler.Basic
import SparseVoxel.Grid.Active
import SparseVoxel.Grid.Checked
import SparseVoxel.Value.Transfer
import SparseVoxel.Sampler.Basic

/-!
# Traversal of the reach of a map

The reach of a map is taken apart: a region is skipped, filled with one state, sampled voxel by
voxel, or replaced by its halves. Regions that span several blocks are halved on block boundaries
before they are sampled, and so is a region whose source window would be much larger than the
stencils of its voxels. `Traversal.run` works off a list of pending regions, the upper half first,
and ends because their weight goes down.

The source is given as a function of the destination, so that a grid can also be resampled into
itself; for two different grids the function is constant.
-/

namespace SparseVoxel

/-- What is counted during a pass: the finished regions, newest first, and the voxels written. -/
structure Progress where
  skipped : List Region
  filled : List Region
  sampled : List Region
  written : Nat

/-- The counts of a pass. -/
structure Stats where
  /-- The region that was taken apart, if there was one. -/
  reach : Option Box
  skipped : Nat
  filled : Nat
  sampled : Nat
  sampledVoxels : Nat
  written : Nat
deriving DecidableEq, Repr

/-- The counts of a pass that did nothing. -/
def Stats.none : Stats :=
  ⟨Option.none, 0, 0, 0, 0, 0⟩

/-- The progress of a pass that has only begun. -/
def Progress.start : Progress :=
  ⟨[], [], [], 0⟩

/-- The counts of a pass over a region. -/
def Progress.stats (p : Progress) (reach : Box) : Stats where
  reach := some reach
  skipped := p.skipped.length
  filled := p.filled.length
  sampled := p.sampled.length
  sampledVoxels := p.sampled.foldr (fun r n => r.volume + n) 0
  written := p.written

/-- A resampler with the sampler it reads by and the machine it runs on, for a source with blocks
of edge `2 ^ k`. -/
structure Traversal (K : Type) (k : Nat) where
  resampler : Resampler K
  sampler : Sampler
  machine : Machine

namespace Traversal

variable {K V W : Type} {k m : Nat} [Scalar K]

/-- What is done about a region. -/
inductive Action (V : Type) (r : Region) where
  | finish (how : Treatment V)
  | split (halves : r.Halves)

/-- The source voxels that are read when every voxel of a region is sampled. -/
def windowBox? (t : Traversal K k) (region : Box) : Except Fault Box := do
  let seen ← t.resampler.preimage? region
  return seen.expand (t.sampler.radius + 1)

/-- The most voxels that the window of a region may have: four times those of the stencils. -/
def windowLimit (t : Traversal K k) (region : Box) : Nat :=
  let width := 2 * t.sampler.radius + 2
  4 * region.volume * (width * width * width)

/-- What is done about a region that has to be sampled: it is halved while it spans several
blocks, or while it has more than one voxel and too large a window. -/
def refine? (t : Traversal K k) (r : Region) : Except Fault (Action V r) :=
  match r.split? k with
  | some halves => .ok (.split halves)
  | none => do
    let window ← t.windowBox? r.box
    if t.windowLimit r.box < window.volume then
      match r.split? 0 with
      | some halves => return .split halves
      | none => return .finish .sample
    else return .finish .sample

variable [BEq V]

/-- What is done about a region. -/
def action? (t : Traversal K k) (source : Grid V k) (r : Region) : Except Fault (Action V r) := do
  match ← t.resampler.treatment? source r.box t.sampler.radius with
  | .sample => t.refine? r
  | how => return .finish how

/-- The samples of all voxels of a region. -/
def samples? [VoxelValue K V] [Sized V] (t : Traversal K k) (source : Grid V k) (region : Box) :
    Except Fault (List (Coord × Voxel V)) := do
  let coords ← t.machine.coords? region
  match t.resampler.inverse with
  | none => .error .noInverse
  | some inverse =>
    let window ← source.window? t.machine (← t.windowBox? region)
    coords.mapM fun c => do
      let v ← t.sampler.readWindow? window
        (inverse.apply c.toScalars - window.box.lo.toScalars)
      return (c, v)

/-- The writes that samples amount to over the background of a destination. -/
def writes? (transfer : Transfer V W) (background : W) (samples : List (Coord × Voxel V)) :
    Except Fault (List (Coord × Voxel W)) := do
  let flags ← transfer.keep background (samples.map Prod.snd)
  let kept := (samples.zip flags).filterMap fun (s, keep) => if keep then some s else none
  let values ← transfer.store (kept.map fun (_, v) => v.value)
  return kept.zipWith (fun (c, v) value => (c, ⟨value, v.active⟩)) values

section Writing

variable [VoxelValue K V] [Sized V] [BEq W] [Sized W]

/-- Finishes a region of the destination. -/
def finish? (t : Traversal K k) (transfer : Transfer V W) (source : Grid V k) (r : Region)
    (p : Progress) : Treatment V → Grid.Attempt W m Progress
  | .skip => return { p with skipped := r :: p.skipped }
  | .fill state => do
    Grid.fill? t.machine r.box (transfer.fill state.value) state.active
    return { p with filled := r :: p.filled }
  | .sample => do
    let samples ← Grid.Attempt.check (t.samples? source r.box)
    let dest ← get
    let writes ← Grid.Attempt.check (writes? transfer dest.background samples)
    Grid.writeAll? t.machine writes
    return { p with sampled := r :: p.sampled, written := p.written + writes.length }

/-- Works off pending regions. If something is refused on the way, what has been written stays. -/
def run (t : Traversal K k) (transfer : Transfer V W) (source : Grid W m → Grid V k)
    (p : Progress) : List Region → Grid.Attempt W m Progress
  | [] => return p
  | r :: rest => do
    let dest ← get
    match ← Grid.Attempt.check (t.action? (source dest) r) with
    | .split halves => run t transfer source p (halves.upper :: halves.lower :: rest)
    | .finish how =>
      let p ← t.finish? transfer (source dest) r p how
      run t transfer source p rest
termination_by pending => Region.weight pending
decreasing_by
  · exact Region.weight_halves_lt r halves rest
  · exact Region.weight_rest_lt r rest

end Writing

end Traversal

namespace Resampler

variable {K V W : Type} {k m : Nat} [Scalar K] [BEq V] [VoxelValue K V] [Sized V] [BEq W] [Sized W]

/-- Resamples a source into a destination. Nothing is done when the map is singular or no voxel
of the source is active. -/
def transform (r : Resampler K) (machine : Machine) (sampler : Sampler) (transfer : Transfer V W)
    (source : Grid W m → Grid V k) : Grid.Attempt W m Stats := do
  if r.inverse.isNone then return .none
  match ← Grid.Attempt.check ((source (← get)).boundActive? machine) with
  | none => return .none
  | some active =>
    let reach ← Grid.Attempt.check (r.reach? active sampler.radius)
    let t : Traversal K k := ⟨r, sampler, machine⟩
    let p ← t.run transfer source .start (Region.ofBox? reach).toList
    return p.stats reach

/-- Resamples by the sampler that is asked for; without one nothing is touched. -/
def transformBy (r : Resampler K) (machine : Machine) (request : Sampler.Request)
    (transfer : Transfer V W) (source : Grid W m → Grid V k) : Grid.Attempt W m Stats := do
  r.transform machine (← Grid.Attempt.check request.resolve?) transfer source

end Resampler

end SparseVoxel

import SparseVoxel.Value.Kind
import SparseVoxel.Grid.Block

/-!
# Moving states between grids

A `Transfer` says how states of a source grid become states of a destination grid. Between grids
of one value type nothing changes. Between different types single states are converted; but
samples, which are written many at a time, fit only when both types have as many components, and
before that they are compared with the background of the destination as arrays are, a list of
numbers against one triple included. For that the background has to fit into the type of the
samples.
-/

namespace SparseVoxel

/-- How values of type `V` get into a grid of values `W`. -/
structure Transfer (V W : Type) where
  /-- The value written when a whole region is filled. -/
  fill : V → Except Fault W
  /-- Which samples have to be written, given the background of the destination: those that are
  active, and those that differ from it. -/
  keep : W → List (Voxel V) → Except Fault (List Bool)
  /-- The values written for samples. -/
  store : List V → Except Fault (List W)

namespace Transfer

/-- Whether a sample has to be written over a background. -/
def worth {V : Type} [BEq V] (background : V) (v : Voxel V) : Bool :=
  v.active || !(v.value == background)

/-- Between grids of one value type. -/
def same (V : Type) [BEq V] : Transfer V V where
  fill := .ok
  keep background samples := .ok (samples.map (worth background))
  store := .ok

/-- Which of a list of single samples differ from a triple. Three samples are compared with its
three components, one sample does not survive being spread over three, and any other number of
samples does not fit. -/
def keepAgainstTriple {V : Type} [BEq V] (components : List V) (samples : List (Voxel V)) :
    Except Fault (List Bool) :=
  match samples.length with
  | 3 => .ok (samples.zipWith (fun v b => worth b v) components)
  | 1 => .error .tooFewElements
  | _ => .error .shapeMismatch

/-- Between grids of any two value types. -/
def between (s t : ValueKind) : Transfer s.Value t.Value where
  fill v := t.cast? (s.nested v)
  keep background samples := do
    let ns := t.numbers background
    if t.isVector && !s.isVector then
      keepAgainstTriple (← ns.mapM fun n => s.castSeparately? [n]) samples
    else
      -- a single background number stands against every component
      let b ← s.castSeparately? ns
      return samples.map (worth b)
  store values :=
    if s.isVector = t.isVector then values.mapM fun v => t.cast? (s.nested v)
    else if values.isEmpty then .ok []
    else .error .shapeMismatch

end Transfer

end SparseVoxel

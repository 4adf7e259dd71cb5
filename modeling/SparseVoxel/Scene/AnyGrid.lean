import SparseVoxel.Resampler.Alignment
import SparseVoxel.Grid.Checked
import SparseVoxel.Grid.Prune

/-!
# Grids of any kind of values

An `AnyGrid` is a placed grid together with the kind of its values. Operations that take values
read them from nested numbers, and all operations run on a machine with words of 64 bits.
-/

namespace SparseVoxel

/-- How values of one kind get into a grid of another. -/
def Transfer.of (s t : ValueKind) : Transfer s.Value t.Value :=
  match decEq s t with
  | isTrue h => h ▸ .same s.Value
  | isFalse _ => .between s t

/-- A placed grid with its kind of values and the size exponent of its blocks. -/
structure AnyGrid where
  kind : ValueKind
  exponent : Nat
  placed : PlacedGrid Float kind.Value exponent

namespace AnyGrid

/-- A new grid. The name of its kind is looked at before its block size, and that before its
background. -/
def new? (kindName : String) (background : Nested Number) (exponent : Number)
    (placement : Placement Float) : Except Fault AnyGrid := do
  let kind ← ValueKind.ofName? kindName
  let k ← Machine.exponent? exponent
  let background ← kind.cast? background
  return ⟨kind, k, .empty background, placement⟩

/-- The stored grid. -/
def grid (g : AnyGrid) : Grid g.kind.Value g.exponent :=
  g.placed.grid

/-- The grid with its storage replaced. -/
def withGrid (g : AnyGrid) (grid : Grid g.kind.Value g.exponent) : AnyGrid :=
  ⟨g.kind, g.exponent, grid, g.placed.placement⟩

/-- The grid with its placement replaced. -/
def withPlacement (g : AnyGrid) (t : Placement Float) : AnyGrid :=
  ⟨g.kind, g.exponent, g.placed.grid, t⟩

/-- Carries out an operation that may be refused. -/
def attempt {α : Type} (g : AnyGrid) (op : Grid.Attempt g.kind.Value g.exponent α) :
    Except Fault α × AnyGrid :=
  let (outcome, placed) := g.placed.attempt op
  (outcome, ⟨g.kind, g.exponent, placed⟩)

/-- Sets a voxel. -/
def set? (g : AnyGrid) (ijk : List Int) (value : Nested Number) (on : Bool) :
    Except Fault Unit × AnyGrid :=
  g.attempt (Grid.set? .words ijk (g.kind.cast? value) on)

/-- Switches a voxel on or off. -/
def setActive? (g : AnyGrid) (ijk : List Int) (on : Bool) : Except Fault Unit × AnyGrid :=
  g.attempt (Grid.setActive? .words ijk on)

/-- Fills a box. -/
def fill? (g : AnyGrid) (box : Box) (value : Nested Number) (on : Bool) :
    Except Fault Unit × AnyGrid :=
  g.attempt (Grid.fill? .words box (g.kind.cast? value) on)

/-- Sets many voxels. -/
def setAll? (g : AnyGrid) (coords : Nested Number) (values : Nested Number)
    (active : Nested Bool) : Except Fault Unit × AnyGrid :=
  g.attempt (Grid.setAll? .words (Grid.coordinates? coords) (g.kind.castMany? values)
    (Grid.flags? active))

/-- Resets every voxel. -/
def clear (g : AnyGrid) : AnyGrid :=
  g.withGrid g.grid.clear

/-- Collapses uniform leaves. -/
def prune (g : AnyGrid) (tolerance : Float) : Nat × AnyGrid :=
  let (grid, n) := g.grid.prune tolerance
  (n, g.withGrid grid)

/-- A copy, which has to pass the checks of a new grid. -/
def copy? (g : AnyGrid) : Except Fault AnyGrid := do
  return ⟨g.kind, g.exponent, ← g.placed.copy?⟩

/-- The state of the voxel at the first three of a list of integers. -/
def read? (g : AnyGrid) (ijk : List Int) : Except Fault (Voxel g.kind.Value) := do
  return g.grid.read (← Grid.coordinate? ijk)

/-- The sample at a position of three numbers. -/
def sample? (g : AnyGrid) (s : Sampler) (xyz : Nested Float) :
    Except Fault (Voxel g.kind.Value) := do
  s.readGrid? g.grid (← Vec3.ofThree? xyz)

/-- Whether two values are equal as values of the grid. -/
def valuesEqual? (g : AnyGrid) (a b : Nested Number) : Except Fault Bool := do
  let a ← g.kind.cast? a
  let b ← g.kind.cast? b
  return a == b

/-- The grid as text. -/
def text (g : AnyGrid) : String :=
  "SparseGrid(" ++ g.kind.name ++ ", background=" ++ g.kind.text g.grid.background ++
    ", leaves=" ++ toString g.grid.leafCount ++ ", tiles=" ++ toString g.grid.tileCount ++ ")"

/-- The tightest box around the active voxels. -/
def activeBox? (g : AnyGrid) : Except Fault (Option Box) :=
  g.grid.boundActive? .words

/-- The edge lengths of the tightest box around the active voxels. -/
def activeDim? (g : AnyGrid) : Except Fault (Vec3 Nat) :=
  g.grid.activeDim? .words

/-- The active voxels with their values, sorted by coordinate. -/
def activeVoxels? (g : AnyGrid) : Except Fault (List (Coord × g.kind.Value)) := do
  let found ← g.grid.listActive? .words
  return found.mergeSort fun a b => (Coord.lexOrder a.1 b.1).isLE

/-- A dense copy of a box. -/
def window? (g : AnyGrid) (box : Box) : Except Fault (Window g.kind.Value) :=
  g.grid.window? .words box

/-- Resamples one grid into another. -/
def transform (r : Resampler Float) (request : Sampler.Request) (source dest : AnyGrid) :
    Except Fault Stats × AnyGrid :=
  dest.attempt (r.transformBy .words request (.of source.kind dest.kind) fun _ => source.grid)

/-- Resamples a grid into itself; each region is read as the regions before have left it. -/
def transformSelf (r : Resampler Float) (request : Sampler.Request) (g : AnyGrid) :
    Except Fault Stats × AnyGrid :=
  g.attempt (r.transformBy .words request (.same g.kind.Value) id)

/-- Clears a grid and resamples another one onto its lattice. -/
def align (o : Resampler.Options Float) (request : Sampler.Request) (source dest : AnyGrid) :
    Except Fault Stats × AnyGrid :=
  let (outcome, placed) := source.placed.align o .words request (.of source.kind dest.kind)
    dest.placed
  (outcome, ⟨dest.kind, dest.exponent, placed⟩)

/-- Clears a grid and resamples it onto its own lattice. -/
def alignSelf (o : Resampler.Options Float) (request : Sampler.Request) (g : AnyGrid) :
    Except Fault Stats × AnyGrid :=
  g.attempt (Resampler.alignBy o .words request (.same g.kind.Value) id
    g.placed.placement g.placed.placement)

end AnyGrid

end SparseVoxel

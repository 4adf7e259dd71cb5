import SparseVoxel.Resampler.Basic
import SparseVoxel.Settings

/-!
# Options of resamplers

What is said when a resampler is made falls back on settings: a switch that is not given is taken
from them, whatever stands there, and so is the order of rotation.
-/

namespace SparseVoxel

/-- What is said when a resampler is made, beyond its map. -/
structure Resampler.Wishes where
  copyTiles : Option Bool
  parallel : Option Bool
  settings : Settings

namespace Resampler.Wishes

/-- A switch that was given, or else the setting. -/
def switch (given : Option Bool) (setting : Datum) : Datum :=
  match given with
  | some b => .number (.bool b)
  | none => setting

/-- Whether tiles are copied, as it was given. -/
def shownCopyTiles (w : Wishes) : Datum :=
  switch w.copyTiles w.settings.copyTiles

/-- Whether samples may be taken in parallel, as it was given. -/
def shownParallel (w : Wishes) : Datum :=
  switch w.parallel w.settings.parallel

/-- The options that a resampler works by. -/
def options (w : Wishes) : Options Float where
  copyTiles := w.shownCopyTiles.isTrue
  parallel := w.shownParallel.isTrue
  margin := w.settings.margin?
  splitTolerance := w.settings.splitTolerance?

/-- The resampler of a nested matrix. -/
def ofMatrix? (w : Wishes) (m : Nested Float) : Except Fault (Resampler Float) := do
  Resampler.ofMatrix? w.options (← Matrix4.requireNested m)

/-- The resampler of a nested matrix that can be split into scale, rotation and shift. -/
def ofSplit? (w : Wishes) (m : Nested Float) : Except Fault (Option (Resampler Float)) := do
  Resampler.ofSplit? w.options (← Matrix4.requireNested m)

/-- The resampler of a pivoted map given by nested vectors. The order of rotation is looked at
after them. -/
def ofFields? (w : Wishes) (pivot scale rotation shift : Option (Nested Float))
    (order : Option String) : Except Fault (Resampler Float) := do
  let m ← PivotMap.ofFields? pivot scale rotation shift (order.getD "")
  let order ← match order with
    | some name => .ok name
    | none => w.settings.rotationOrder?
  Resampler.ofMap? w.options { m with order }

end Resampler.Wishes

end SparseVoxel

import SparseVoxel.Scene.AnyGrid

/-!
# Scenes

A `Scene` keeps grids and resamplers by name. Resampling a grid into the one of the same name
works in place.
-/

namespace SparseVoxel

/-- Named grids and named resamplers. -/
structure Scene where
  grids : List (String × AnyGrid)
  resamplers : List (String × Resampler Float)

namespace Scene

/-- The scene that holds nothing. -/
def empty : Scene :=
  ⟨[], []⟩

/-- The first entry of a name. -/
def find? {α : Type} (entries : List (String × α)) (name : String) : Except Fault α :=
  match entries.find? fun e => e.1 == name with
  | some e => .ok e.2
  | none => .error .unknownName

/-- The entries without those of a name. -/
def without {α : Type} (entries : List (String × α)) (name : String) : List (String × α) :=
  entries.filter fun e => e.1 != name

/-- The grid of a name. -/
def grid? (s : Scene) (name : String) : Except Fault AnyGrid :=
  find? s.grids name

/-- The resampler of a name. -/
def resampler? (s : Scene) (name : String) : Except Fault (Resampler Float) :=
  find? s.resamplers name

/-- The scene with a grid under a name. -/
def putGrid (s : Scene) (name : String) (g : AnyGrid) : Scene :=
  { s with grids := (name, g) :: without s.grids name }

/-- The scene with a resampler, or none, under a name. -/
def setResampler (s : Scene) (name : String) (r : Option (Resampler Float)) : Scene :=
  { s with resamplers := (r.map (name, ·)).toList ++ without s.resamplers name }

/-- Changes the grid of a name, if there is one, by an operation that may be refused. -/
def changeGrid {α : Type} (s : Scene) (name : String)
    (op : AnyGrid → Except Fault α × AnyGrid) : Except Fault α × Scene :=
  match s.grid? name with
  | .error e => (.error e, s)
  | .ok g =>
    let (outcome, g) := op g
    (outcome, s.putGrid name g)

/-- Resamples one grid into another by the resampler of a name. -/
def transform (s : Scene) (resampler : String) (request : Sampler.Request)
    (source dest : String) : Except Fault Stats × Scene :=
  match s.resampler? resampler, s.grid? source with
  | .error e, _ => (.error e, s)
  | _, .error e => (.error e, s)
  | .ok r, .ok a =>
    s.changeGrid dest fun b =>
      if source = dest then AnyGrid.transformSelf r request b
      else AnyGrid.transform r request a b

/-- Clears a grid and resamples another one onto its lattice. The options are looked at when
both grids have been found. -/
def align (s : Scene) (options : Except Fault (Resampler.Options Float))
    (request : Sampler.Request) (source dest : String) : Except Fault Stats × Scene :=
  match s.grid? source with
  | .error e => (.error e, s)
  | .ok a =>
    s.changeGrid dest fun b =>
      match options with
      | .error e => (.error e, b)
      | .ok o =>
        if source = dest then AnyGrid.alignSelf o request b
        else AnyGrid.align o request a b

end Scene

end SparseVoxel

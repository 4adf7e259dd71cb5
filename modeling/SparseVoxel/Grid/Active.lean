import SparseVoxel.Grid.Basic
import SparseVoxel.Machine

/-!
# Active voxels and tiles

The active voxels of a grid are listed, counted and enclosed block by block: an active tile
stands for all voxels of its block, a leaf for those it marks. Where a machine lists them, a leaf
shows its voxels where the machine finds them, and a tile needs a list of coordinates;
`boundActive?_ideal` says that the ideal machine encloses exactly the active voxels.
-/

namespace SparseVoxel

namespace Block

variable {V : Type} {k : Nat}

/-- The active voxels of the block under a key with their values, the z axis running fastest. -/
def actives (key : Coord) (b : Block V k) : List (Coord × V) :=
  (Box.ofBlock k key).coords.filterMap fun c =>
    let v := b.read c
    if v.active then some (c, v.value) else none

/-- The number of active voxels of a block. -/
def activeCount : Block V k → Nat
  | .tile state => if state.active then blockSize k else 0
  | .leaf cells => cells.toList.countP (·.active)

/-- The tightest box around the active voxels of the block under a key. -/
def activeBox? (key : Coord) : Block V k → Option Box
  | .tile state => if state.active then some (Box.ofBlock k key) else none
  | .leaf cells => Box.ofPoints? ((actives key (.leaf cells)).map Prod.fst)

/-- The active voxels of the block under a key as a machine lists them. -/
def listActives? (machine : Machine) (key : Coord) :
    Block V k → Except Fault (List (Coord × V))
  | .tile state => do
    if state.active then return (← machine.coords? (Box.ofBlock k key)).map (·, state.value)
    else return []
  | .leaf cells => do
    let place ← machine.locate? k key
    return ((Block.leaf cells).actives key).map fun (c, v) => (place c, v)

/-- The tightest box around the active voxels of a block where a machine finds them. -/
def boundActives? (machine : Machine) (key : Coord) (b : Block V k) :
    Except Fault (Option Box) :=
  match b, b.activeBox? key with
  | .leaf _, some box => do
    let place ← machine.locate? k key
    return some ⟨place box.lo, place box.hi⟩
  | _, found => .ok found

theorem boundActives?_ideal (key : Coord) (b : Block V k) :
    b.boundActives? .ideal key = .ok (b.activeBox? key) := by
  simp only [boundActives?]
  split
  · next h => rw [h]; rfl
  · rfl

end Block

namespace Box

/-- The least box around two boxes, either of which may be missing. -/
def union? : Option Box → Option Box → Option Box
  | some a, some b => some (a.union b)
  | some a, none => some a
  | none, b => b

end Box

namespace Grid

variable {V : Type} {k : Nat}

/-- The active voxels with their values, block by block. -/
def activeVoxels (g : Grid V k) : List (Coord × V) :=
  g.blocks.toList.flatMap fun (key, b) => b.actives key

/-- The number of active voxels. -/
def activeCount (g : Grid V k) : Nat :=
  g.blocks.toList.foldr (fun (_, b) n => b.activeCount + n) 0

/-- The tightest box around the active voxels. -/
def activeBox? (g : Grid V k) : Option Box :=
  g.blocks.toList.foldl (fun found (key, b) => Box.union? found (b.activeBox? key)) none

/-- The active voxels with their values as a machine lists them, those of leaves first. -/
def listActive? (machine : Machine) (g : Grid V k) : Except Fault (List (Coord × V)) := do
  let (leaves, tiles) := g.blocks.toList.partition fun (_, b) => b.isLeaf
  let found ← (leaves ++ tiles).mapM fun (key, b) => b.listActives? machine key
  return found.flatten

/-- The tightest box around the active voxels where a machine finds them. -/
def boundActive? (machine : Machine) (g : Grid V k) : Except Fault (Option Box) :=
  g.blocks.toList.foldlM (fun found (key, b) => do
    return Box.union? found (← b.boundActives? machine key)) none

/-- The ideal machine encloses exactly the active voxels. -/
theorem boundActive?_ideal (g : Grid V k) : g.boundActive? .ideal = .ok g.activeBox? := by
  simp only [boundActive?, activeBox?, Block.boundActives?_ideal]
  exact List.foldlM_pure

theorem boundActive?_of_activeBox? {g : Grid V k} {b : Box} (h : g.activeBox? = some b) :
    g.boundActive? .ideal = .ok (some b) := by
  rw [boundActive?_ideal, h]

/-- The edge lengths of the tightest box around the active voxels where a machine finds them. -/
def activeDim? (machine : Machine) (g : Grid V k) : Except Fault (Vec3 Nat) := do
  match ← g.boundActive? machine with
  | some b => return b.dim
  | none => return .replicate 0

/-- The tiles with their boxes. -/
def tiles (g : Grid V k) : List (Box × Voxel V) :=
  g.blocks.toList.filterMap fun (key, b) =>
    match b with
    | .tile state => some (Box.ofBlock k key, state)
    | .leaf _ => none

end Grid

end SparseVoxel

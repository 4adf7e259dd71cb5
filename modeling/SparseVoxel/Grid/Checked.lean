import SparseVoxel.Grid.Grouping
import SparseVoxel.Box.Input
import SparseVoxel.Machine
import SparseVoxel.Nested.Reading

/-!
# Writes that may be refused

A write whose coordinate or value does not fit is refused, and so is one that needs a leaf for
which the machine has no room; the grid is there in either case. A single write has already turned
the block of its voxel into a leaf when it finds its value unfit; filling and bulk writing look at
all values first. Making room loses a tile where there is none for its leaf
(`makeRoom?_eq_error_iff`). On a machine that has room for the leaves none is refused
(`makeRoom?_eq_ok`), and there filling is the plain operation (`fill?_eq`).
-/

namespace SparseVoxel.Grid

variable {V : Type} {k : Nat}

/-- An operation on a grid that may be refused; the grid is there in either case. -/
abbrev Attempt (V : Type) (k : Nat) (α : Type) :=
  EStateM Fault (Grid V k) α

/-- Carries an outcome over into an operation. -/
def Attempt.check {α : Type} : Except Fault α → Attempt V k α
  | .ok a => pure a
  | .error e => throw e

/-- A check that fails leaves the grid as it is. -/
theorem Attempt.check_bind {α β : Type} (outcome : Except Fault α) (f : α → Attempt V k β)
    (g : Grid V k) :
    (Attempt.check outcome >>= f) g =
      match outcome with
      | .ok a => f a g
      | .error e => .error e g := by
  cases outcome with
  | ok a => rfl
  | error e => rfl

/-- After an operation that is refused nothing more is done. -/
theorem Attempt.bind_eq {α β : Type} (op : Attempt V k α) (f : α → Attempt V k β) (g : Grid V k) :
    (op >>= f) g =
      match op g with
      | .ok a g' => f a g'
      | .error e g' => .error e g' := by
  show EStateM.bind op f g = _
  unfold EStateM.bind
  split
  · next h => simp only [h]
  · next h => simp only [h]

theorem Attempt.bind_of_eq_ok {α β : Type} {op : Attempt V k α} {f : α → Attempt V k β}
    {a : α} {g g' : Grid V k} (h : op g = .ok a g') : (op >>= f) g = f a g' := by
  rw [bind_eq, h]

/-- Two operations in a row are carried out if each of them is. -/
theorem Attempt.bind_eq_ok {α β : Type} {op : Attempt V k α} {f : α → Attempt V k β}
    {b : β} {g g' : Grid V k} :
    (op >>= f) g = .ok b g' ↔ ∃ a g₁, op g = .ok a g₁ ∧ f a g₁ = .ok b g' := by
  constructor
  · intro h
    rw [bind_eq] at h
    split at h
    · next a g₁ hop => exact ⟨a, g₁, hop, h⟩
    · cases h
  · rintro ⟨a, g₁, hop, h⟩
    exact (bind_of_eq_ok hop).trans h

/-- An operation behind a check is carried out on what was checked. -/
theorem Attempt.check_bind_eq_ok {α β : Type} {outcome : Except Fault α}
    {f : α → Attempt V k β} {b : β} {g g' : Grid V k} :
    (Attempt.check outcome >>= f) g = .ok b g' ↔ ∃ a, outcome = .ok a ∧ f a g = .ok b g' := by
  constructor
  · intro h
    cases outcome with
    | ok a => exact ⟨a, rfl, h⟩
    | error e => cases h
  · rintro ⟨a, rfl, h⟩
    exact h

/-- Two operations in a row are refused if the first one is, or the second one after it. -/
theorem Attempt.bind_eq_error {α β : Type} {op : Attempt V k α} {f : α → Attempt V k β}
    {e : Fault} {g g' : Grid V k} :
    (op >>= f) g = .error e g' ↔
      op g = .error e g' ∨ ∃ a g₁, op g = .ok a g₁ ∧ f a g₁ = .error e g' := by
  rw [bind_eq]
  cases op g with
  | ok a g₁ =>
    constructor
    · exact fun h => Or.inr ⟨a, g₁, rfl, h⟩
    · rintro (h | ⟨_, _, h, hf⟩)
      · cases h
      · cases h
        exact hf
  | error e' g₁ =>
    constructor
    · intro h
      cases h
      exact Or.inl rfl
    · rintro (h | ⟨_, _, h, -⟩)
      · cases h
        rfl
      · cases h

/-- An operation behind a check is refused by the check, which leaves the grid as it is, or after
it. -/
theorem Attempt.check_bind_eq_error {α β : Type} {outcome : Except Fault α}
    {f : α → Attempt V k β} {e : Fault} {g g' : Grid V k} :
    (Attempt.check outcome >>= f) g = .error e g' ↔
      outcome = .error e ∧ g' = g ∨ ∃ a, outcome = .ok a ∧ f a g = .error e g' := by
  rw [check_bind]
  cases outcome with
  | ok a =>
    constructor
    · exact fun h => Or.inr ⟨a, rfl, h⟩
    · rintro (⟨h, -⟩ | ⟨_, h, hf⟩)
      · cases h
      · cases h
        exact hf
  | error e' =>
    constructor
    · intro h
      cases h
      exact Or.inl ⟨rfl, rfl⟩
    · rintro (⟨h, rfl⟩ | ⟨_, h, -⟩)
      · cases h
        rfl
      · cases h

/-- Goes through a list of steps; a refused one leaves out the steps after it. -/
def Attempt.each {α : Type} (step : α → Attempt V k Unit) : List α → Attempt V k Unit
  | [] => pure ()
  | a :: rest => do
    step a
    each step rest

/-- The coordinate made of the first three integers of a list. -/
def coordinate? (ijk : List Int) : Except Fault Coord :=
  Box.firstThree? .ok ijk

/-- Stores nothing under a key any more. -/
def dropBlock (g : Grid V k) (key : Coord) : Grid V k :=
  { g with blocks := g.blocks.erase key }

section Writing

variable [Sized V] (machine : Machine)

/-- Makes room for the block under a key to become a leaf, which takes none where it is one. If
there is no room, the tile stored under the key is lost. -/
def makeRoom? (key : Coord) : Attempt V k Unit := fun g =>
  if (g.block? key).any Block.isLeaf then .ok () g
  else
    match machine.reserve? (.replicate (Box.edge k)) (Sized.bytes V) with
    | .ok () => .ok () g
    | .error e => .error e (g.dropBlock key)

/-- Sets a voxel's value and switches it on or off. -/
def set? (ijk : List Int) (value : Except Fault V) (on : Bool) : Attempt V k Unit := do
  let c ← Attempt.check (coordinate? ijk)
  let key := Box.blockKey k c
  makeRoom? machine key
  modify fun g => g.densify key
  let v ← Attempt.check value
  modify fun g => g.write c ⟨v, on⟩

/-- Switches a voxel on or off. -/
def setActive? (ijk : List Int) (on : Bool) : Attempt V k Unit := do
  let c ← Attempt.check (coordinate? ijk)
  makeRoom? machine (Box.blockKey k c)
  modify fun g => g.setActive c on

/-- Fills the part of a block that lies in a box. -/
def fillBlock? [BEq V] (box : Box) (state : Voxel V) (key : Coord) : Attempt V k Unit := do
  unless box.containsBox (Box.ofBlock k key) do makeRoom? machine key
  modify fun g => g.fillBlock box state key

/-- Sets every voxel of a box to one state, block by block. -/
def fillWith? [BEq V] (box : Box) (state : Voxel V) : Attempt V k Unit :=
  Attempt.each (fillBlock? machine box state) (box.blocks k)

/-- Sets every voxel of a box. The value does not matter when the box is empty. -/
def fill? [BEq V] (box : Box) (value : Except Fault V) (on : Bool) : Attempt V k Unit := do
  if box.isEmpty then return
  let v ← Attempt.check value
  fillWith? machine box ⟨v, on⟩

/-- Writes the voxels of one block. -/
def writeBlock? (group : Coord × List (Coord × Voxel V)) : Attempt V k Unit := do
  makeRoom? machine group.1
  modify fun g => g.alterBlock group.1 (·.writeAll group.2)

/-- Sets the states of many voxels block by block. -/
def writeAll? (writes : List (Coord × Voxel V)) : Attempt V k Unit := do
  if writes.isEmpty then return
  Attempt.check (machine.offsets? k)
  Attempt.each (writeBlock? machine) (groupByBlock k writes)

/-- Sets many voxels. The values and the activity are asked for by the number of coordinates,
and do not matter when there is none. -/
def setAll? (coords : Except Fault (List Coord)) (values : Nat → Except Fault (List V))
    (active : Nat → Except Fault (List Bool)) : Attempt V k Unit := do
  let cs ← Attempt.check coords
  if cs.isEmpty then return
  let vs ← Attempt.check (values cs.length)
  let on ← Attempt.check (active cs.length)
  writeAll? machine (cs.zip (vs.zipWith Voxel.mk on))

end Writing

/-- Coordinates listed in threes, each a 64-bit integer. -/
def coordinates? (raw : Nested Number) : Except Fault (List Coord) :=
  raw.triples? (Number.word? Word.bound64)

/-- One flag per coordinate, or one for all of them. -/
def flags? (raw : Nested Bool) (count : Nat) : Except Fault (List Bool) := do
  let t ← raw.requireTensor
  match t.shape, t.entries with
  | [], [b] => return .replicate count b
  | [1], [b] => return .replicate count b
  | [n], bs => if n = count then return bs else .error .shapeMismatch
  | _, _ => .error .shapeMismatch

/-! ## Where there is room -/

/-- Steps that are never refused are carried out one after the other. -/
theorem Attempt.each_eq_ok {α : Type} {step : α → Attempt V k Unit} {f : Grid V k → α → Grid V k}
    (h : ∀ a g, step a g = .ok () (f g a)) (as : List α) (g : Grid V k) :
    Attempt.each step as g = .ok () (as.foldl f g) := by
  induction as generalizing g with
  | nil => rfl
  | cons a as ih =>
    rw [Attempt.each, bind_of_eq_ok (h a g), ih, List.foldl_cons]

/-- Steps that are carried out one after the other, each as a plain operation if it is not
refused. -/
theorem Attempt.eq_foldl_of_each {α : Type} {step : α → Attempt V k Unit}
    {f : Grid V k → α → Grid V k} (hstep : ∀ {a g g'}, step a g = .ok () g' → g' = f g a)
    {as : List α} {g g' : Grid V k} (h : Attempt.each step as g = .ok () g') :
    g' = as.foldl f g := by
  induction as generalizing g with
  | nil =>
    cases h
    rfl
  | cons a as ih =>
    obtain ⟨_, g₁, hfirst, hrest⟩ := bind_eq_ok.mp h
    rw [List.foldl_cons, ← hstep hfirst]
    exact ih hrest

section Leaf

variable [Sized V] {machine : Machine} {key : Coord} {g g' : Grid V k}

/-- There is room for a leaf where there already is one, and where the machine has room. -/
theorem makeRoom?_eq_ok_iff : makeRoom? machine key g = .ok () g' ↔
    g' = g ∧ ((g.block? key).any Block.isLeaf = true ∨
      machine.reserve? (.replicate (Box.edge k)) (Sized.bytes V) = .ok ()) := by
  unfold makeRoom?
  split
  · next hleaf =>
    constructor
    · intro h
      cases h
      exact ⟨rfl, Or.inl hleaf⟩
    · rintro ⟨rfl, -⟩
      rfl
  · next hleaf =>
    split
    · next hreserve =>
      constructor
      · intro h
        cases h
        exact ⟨rfl, Or.inr hreserve⟩
      · rintro ⟨rfl, -⟩
        rfl
    · next hreserve =>
      refine ⟨nofun, ?_⟩
      rintro ⟨-, h | h⟩
      · exact absurd h hleaf
      · rw [hreserve] at h
        cases h

/-- Where there is no room, the block that was to become a leaf is lost. -/
theorem makeRoom?_eq_error_iff {e : Fault} : makeRoom? machine key g = .error e g' ↔
    (g.block? key).any Block.isLeaf = false ∧
      machine.reserve? (.replicate (Box.edge k)) (Sized.bytes V) = .error e ∧
        g' = g.dropBlock key := by
  unfold makeRoom?
  split
  · next hleaf =>
    refine ⟨nofun, ?_⟩
    rintro ⟨h, -⟩
    rw [hleaf] at h
    cases h
  · next hleaf =>
    rw [Bool.not_eq_true] at hleaf
    split
    · next hreserve =>
      refine ⟨nofun, ?_⟩
      rintro ⟨-, h, -⟩
      rw [hreserve] at h
      cases h
    · next hreserve =>
      constructor
      · intro h
        cases h
        exact ⟨hleaf, hreserve, rfl⟩
      · rintro ⟨-, h, rfl⟩
        rw [hreserve] at h
        cases h
        rfl

end Leaf

section Room

variable [Sized V] {machine : Machine} (hroom : machine.HasRoom V k)

include hroom

theorem makeRoom?_eq_ok (key : Coord) (g : Grid V k) : makeRoom? machine key g = .ok () g :=
  makeRoom?_eq_ok_iff.mpr ⟨rfl, Or.inr hroom.leaf⟩

theorem fillBlock?_eq_ok [BEq V] (box : Box) (state : Voxel V) (key : Coord) (g : Grid V k) :
    fillBlock? machine box state key g = .ok () (g.fillBlock box state key) := by
  unfold fillBlock?
  split
  · rfl
  · exact Attempt.bind_of_eq_ok (makeRoom?_eq_ok hroom key g)

/-- Where there is room, a box that is not empty is filled. -/
theorem fillWith?_eq_ok [BEq V] {box : Box} (h : box.isEmpty = false) (state : Voxel V)
    (g : Grid V k) : fillWith? machine box state g = .ok () (g.fill box state) := by
  rw [fillWith?, Attempt.each_eq_ok (fun key g => fillBlock?_eq_ok hroom box state key g), fill, h]
  rfl

/-- The value does not matter when the box is empty. -/
theorem fill?_eq [BEq V] (box : Box) (value : Except Fault V) (on : Bool) (g : Grid V k) :
    fill? machine box value on g =
      match value with
      | .error e => if box.isEmpty then .ok () g else .error e g
      | .ok v => .ok () (g.fill box ⟨v, on⟩) := by
  unfold fill?
  cases hempty : box.isEmpty with
  | true =>
    cases value with
    | error e => rfl
    | ok v =>
      have hfill : g.fill box ⟨v, on⟩ = g := if_pos hempty
      exact congrArg (EStateM.Result.ok ()) hfill.symm
  | false =>
    cases value with
    | error e => rfl
    | ok v => exact fillWith?_eq_ok hroom hempty ⟨v, on⟩ g

theorem writeBlock?_eq_ok (group : Coord × List (Coord × Voxel V)) (g : Grid V k) :
    writeBlock? machine group g = .ok () (g.alterBlock group.1 (·.writeAll group.2)) :=
  Attempt.bind_of_eq_ok (makeRoom?_eq_ok hroom group.1 g)

end Room

end SparseVoxel.Grid

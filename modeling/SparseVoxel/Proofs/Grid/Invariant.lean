import SparseVoxel.Proofs.Grid.Calls

/-!
# Properties that every call keeps

Whatever an operation does to a store, it does in four kinds of steps: it loses a block, turns one
into a leaf, stores a tile by `putTile`, or resets the grid. A property of grids that these steps
keep is an `Invariant`. Operations keep it whether they are carried out or refused
(`Attempt.Keeps`), on whatever machine, and so do calls and sequences of them (`Invariant.runAll`).

The background is such an invariant, and so is the tidiness of the store (`tidy_runAll`).
-/

namespace SparseVoxel.Grid

variable {V : Type} {k : Nat}

/-! ## Operations that may be refused -/

/-- The property holds of what an operation leaves, also where it is refused. -/
def Attempt.Keeps {α : Type} (P : Grid V k → Prop) (op : Attempt V k α) : Prop :=
  ∀ g, P g → match op g with
    | .ok _ g' => P g'
    | .error _ g' => P g'

namespace Attempt.Keeps

variable {P : Grid V k → Prop} {α β : Type}

theorem pure (a : α) : Keeps P (Pure.pure a : Attempt V k α) :=
  fun _ h => h

theorem check (outcome : Except Fault α) : Keeps P (Attempt.check outcome) := by
  intro g h
  cases outcome with
  | ok a => exact h
  | error e => exact h

theorem modify {f : Grid V k → Grid V k} (hf : ∀ g, P g → P (f g)) :
    Keeps P (MonadStateOf.modifyGet fun g => ((), f g) : Attempt V k Unit) :=
  fun g h => hf g h

theorem bind {op : Attempt V k α} {f : α → Attempt V k β} (hop : Keeps P op)
    (hf : ∀ a, Keeps P (f a)) : Keeps P (op >>= f) := by
  intro g h
  have hmiddle := hop g h
  rw [bind_eq]
  cases hresult : op g with
  | ok a g' =>
    rw [hresult] at hmiddle
    exact hf a g' hmiddle
  | error e g' =>
    rw [hresult] at hmiddle
    exact hmiddle

theorem each {step : α → Attempt V k Unit} {as : List α} (hstep : ∀ a ∈ as, Keeps P (step a)) :
    Keeps P (Attempt.each step as) := by
  induction as with
  | nil => exact pure ()
  | cons a as ih =>
    refine bind (hstep a List.mem_cons_self) fun _ => ?_
    exact ih fun b hb => hstep b (List.mem_cons_of_mem a hb)

end Attempt.Keeps

/-! ## Invariants -/

theorem block?_dropBlock (g : Grid V k) (key other : Coord) :
    (g.dropBlock key).block? other = if other = key then none else g.block? other := by
  by_cases h : other = key
  · subst h
    simp [dropBlock, block?]
  · simp [dropBlock, block?, Std.TreeMap.getElem?_erase, Coord.compare_ne h, h]

variable [BEq V]

/-- A property that the steps of every operation keep. -/
structure Invariant (P : Grid V k → Prop) : Prop where
  dropBlock : ∀ g key, P g → P (g.dropBlock key)
  alterBlock : ∀ g key (f : Block V k → Block V k), (∀ b, (f b).isLeaf = true) → P g →
    P (g.alterBlock key f)
  putTile : ∀ g key state, P g → P (g.putTile key state)
  clear : ∀ g, P g → P g.clear

namespace Invariant

open Attempt (Keeps)

variable {P : Grid V k → Prop}

theorem fillBlock (hP : Invariant P) (box : Box) (state : Voxel V) (g : Grid V k) (key : Coord)
    (h : P g) : P (Grid.fillBlock box state g key) := by
  rw [fillBlock_eq]
  split
  · exact hP.putTile g key state h
  · exact hP.alterBlock g key _ (fun _ => rfl) h

theorem prune {K : Type} [Scalar K] [VoxelValue K V] (hP : Invariant P) (tolerance : K)
    {g : Grid V k} (h : P g) : P (g.prune tolerance).1 :=
  List.foldlRecOn _ _ h fun g hg p _ => hP.putTile g p.1 p.2 hg

variable [Sized V] (machine : Machine)

theorem makeRoom? (hP : Invariant P) (key : Coord) : Keeps P (Grid.makeRoom? machine key) := by
  intro g h
  cases hresult : Grid.makeRoom? machine key g with
  | ok _ g' =>
    obtain ⟨rfl, -⟩ := makeRoom?_eq_ok_iff.mp hresult
    exact h
  | error e g' =>
    obtain ⟨-, -, rfl⟩ := makeRoom?_eq_error_iff.mp hresult
    exact hP.dropBlock g key h

theorem set? (hP : Invariant P) (ijk : List Int) (value : Except Fault V) (on : Bool) :
    Keeps P (Grid.set? (k := k) machine ijk value on) := by
  refine .bind (.check _) fun c => .bind (hP.makeRoom? machine _) fun _ => ?_
  refine .bind (.modify fun g h => hP.alterBlock g _ _ (fun _ => rfl) h) fun _ => ?_
  exact .bind (.check _) fun v => .modify fun g h => hP.alterBlock g _ _ (fun _ => rfl) h

theorem setActive? (hP : Invariant P) (ijk : List Int) (on : Bool) :
    Keeps P (Grid.setActive? (k := k) machine ijk on) := by
  refine .bind (.check _) fun c => .bind (hP.makeRoom? machine _) fun _ => ?_
  exact .modify fun g h => hP.alterBlock g _ _ (fun _ => rfl) h

theorem fillBlock? (hP : Invariant P) (box : Box) (state : Voxel V) (key : Coord) :
    Keeps P (Grid.fillBlock? machine box state key) := by
  unfold Grid.fillBlock?
  split
  · exact .modify fun g h => hP.fillBlock box state g key h
  · exact .bind (hP.makeRoom? machine key) fun _ =>
      .modify fun g h => hP.fillBlock box state g key h

theorem fill? (hP : Invariant P) (box : Box) (value : Except Fault V) (on : Bool) :
    Keeps P (Grid.fill? (k := k) machine box value on) := by
  unfold Grid.fill?
  split
  · exact .pure ()
  · exact .bind (.check _) fun v => .each fun key _ =>
      hP.fillBlock? machine box ⟨v, on⟩ key

theorem writeBlock? (hP : Invariant P) (group : Coord × List (Coord × Voxel V)) :
    Keeps P (Grid.writeBlock? machine group) :=
  .bind (hP.makeRoom? machine group.1) fun _ =>
    .modify fun g h => hP.alterBlock g _ _ (fun _ => rfl) h

theorem setAll? (hP : Invariant P) (coords : Except Fault (List Coord))
    (values : Nat → Except Fault (List V)) (active : Nat → Except Fault (List Bool)) :
    Keeps P (Grid.setAll? (k := k) machine coords values active) := by
  have hwrites : ∀ writes, Keeps P (Grid.writeAll? (k := k) machine writes) := by
    intro writes
    unfold Grid.writeAll?
    split
    · exact .pure ()
    · exact .bind (.check _) fun _ => .each fun group _ => hP.writeBlock? machine group
  refine .bind (.check _) fun cs => ?_
  split
  · exact .pure ()
  · exact .bind (.check _) fun vs => .bind (.check _) fun on => hwrites _

end Invariant

/-! ## Runs -/

section Runs

variable {t : ValueKind} {P : Grid t.Value k → Prop}

/-- What an operation leaves has a property that the operation keeps. -/
theorem Attempt.Keeps.settle {op : Attempt t.Value k Unit} (hop : Attempt.Keeps P op)
    {p : PlacedGrid Float t.Value k} (h : P p.grid) : P (Call.settle op p).grid := by
  have hafter := hop p.grid h
  unfold Call.settle
  cases hresult : op p.grid with
  | ok _ g =>
    rw [hresult] at hafter
    exact hafter
  | error e g =>
    rw [hresult] at hafter
    exact hafter

theorem Invariant.run (hP : Invariant P) (machine : Machine) {p : PlacedGrid Float t.Value k}
    (h : P p.grid) (call : Call) : P (call.run machine p).grid := by
  cases call with
  | set ijk value on => exact (hP.set? machine ijk (t.cast? value) on).settle h
  | setActive ijk on => exact (hP.setActive? machine ijk on).settle h
  | fill box value on => exact (hP.fill? machine box (t.cast? value) on).settle h
  | setAll coords values active => exact (hP.setAll? machine _ _ _).settle h
  | prune tolerance => exact hP.prune tolerance h
  | clear => exact hP.clear _ h
  | copy =>
    rw [Call.grid_run_copy]
    exact h

theorem Invariant.runAll (hP : Invariant P) (machine : Machine) (calls : List Call)
    {p : PlacedGrid Float t.Value k} (h : P p.grid) : P (Call.runAll machine calls p).grid := by
  induction calls generalizing p with
  | nil => exact h
  | cons call calls ih => exact ih (hP.run machine h call)

end Runs

/-! ## The background and the store -/

theorem invariant_background (background : V) :
    Invariant fun g : Grid V k => g.background = background where
  dropBlock _ _ h := h
  alterBlock _ _ _ _ h := h
  putTile g key state h := (congrArg Voxel.value (unset_putTile g key state)).trans h
  clear _ h := h

theorem invariant_tidy : Invariant (Tidy : Grid V k → Prop) where
  dropBlock g key h := by
    refine .of_tile_set fun other state hstate => ?_
    rw [block?_dropBlock] at hstate
    split at hstate
    · cases hstate
    · exact h.tile_set other state hstate
  alterBlock _ key _ hf h := h.alterBlock key hf
  putTile _ key state h := h.putTile key state
  clear g _ := .clear g

/-- Whatever is called on a new grid, and on whatever machine, the background stays and the store is
tidy. -/
theorem tidy_runAll {t : ValueKind} (machine : Machine) (background : t.Value)
    (placement : Placement Float) (calls : List Call) :
    let after := Call.runAll machine calls ⟨(.empty background : Grid t.Value k), placement⟩
    after.grid.background = background ∧ after.grid.Tidy :=
  ⟨(invariant_background background).runAll machine calls rfl,
    invariant_tidy.runAll machine calls (.empty background)⟩

end SparseVoxel.Grid

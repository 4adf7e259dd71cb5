import Mathlib.Logic.Function.Basic
import SparseVoxel.Proofs.Grid.Grouping
import SparseVoxel.Proofs.Grid.Tidy
import SparseVoxel.Proofs.Grid.TwoMaps
import SparseVoxel.Resampler.Alignment

/-!
# Grids as plain maps of voxels

Whatever the calls on a grid were, what it reads agrees with a plain map of voxels that has been
through the same calls, and its store is tidy. It does not matter that leaves and tiles are kept in
one map: a store that has two, and moves blocks between them, comes to the same blocks.

`Call.run` carries a call out on a placed grid, `Call.keep` on a store of two maps, and
`Call.effect` says what becomes of the map of voxels. `Represents` joins these facts; one call
preserves it (`Represents.run`), and so does a sequence of calls (`Represents.runAll`).

A call that is refused changes no voxel. Views agree up to the equality of values as numbers
(`Voxel.Same`): where filling or pruning leaves a block to absence, the background stands for a
value that may differ from it in the sign of zero.
-/

namespace SparseVoxel

/-! ## Grids that represent a map -/

/-- A tidy grid that reads as a map of voxels does, and whose blocks two maps hold. -/
structure Grid.Represents {V : Type} {k : Nat} [BEq V] (g : Grid V k) (background : V)
    (maps : TwoMaps V k) (view : Coord → Voxel V) : Prop where
  background_eq : g.background = background
  tidy : g.Tidy
  stored : maps.Stores g
  read_same : ∀ c, (g.read c).Same (view c)

namespace Grid.Represents

variable {V : Type} {k : Nat} [BEq V] {g : Grid V k} {background : V} {maps : TwoMaps V k}
variable {view : Coord → Voxel V}

theorem empty (background : V) :
    (Grid.empty background : Grid V k).Represents background (.empty background)
      fun _ => ⟨background, false⟩ where
  background_eq := rfl
  tidy := .empty background
  stored := .empty background
  read_same c := by
    rw [read_of_not_stored]
    · exact .refl _
    · simp [block?, Grid.empty]

theorem clear (h : g.Represents background maps view) :
    g.clear.Represents background maps.clear fun _ => ⟨background, false⟩ where
  background_eq := h.background_eq
  tidy := .clear g
  stored := h.stored.clear
  read_same c := by
    rw [read_clear, unset, h.background_eq]
    exact .refl _

theorem densify (h : g.Represents background maps view) (key : Coord) :
    (g.densify key).Represents background (maps.densify key) view where
  background_eq := h.background_eq
  tidy := h.tidy.alterBlock key fun _ => rfl
  stored := h.stored.densify key
  read_same c := by
    rw [read_densify]
    exact h.read_same c

theorem write (h : g.Represents background maps view) (c : Coord) (state : Voxel V) :
    (g.write c state).Represents background (maps.write c state)
      (Function.update view c state) where
  background_eq := h.background_eq
  tidy := h.tidy.alterBlock _ fun _ => rfl
  stored := h.stored.write c state
  read_same d := by
    rw [read_write, Function.update_apply]
    split
    · exact .refl _
    · exact h.read_same d

theorem setActive (h : g.Represents background maps view) (c : Coord) (on : Bool) :
    (g.setActive c on).Represents background (maps.setActive c on)
      (Function.update view c { view c with active := on }) where
  background_eq := h.background_eq
  tidy := h.tidy.alterBlock _ fun _ => rfl
  stored := h.stored.setActive c on
  read_same d := by
    rw [read_setActive, Function.update_apply]
    split
    · exact (h.read_same c).withActive on
    · exact h.read_same d

theorem writeAll (h : g.Represents background maps view) (writes : List (Coord × Voxel V)) :
    (g.writeAll writes).Represents background (maps.writeAll writes)
      fun c => overwrite writes c (view c) where
  background_eq := (background_writeAll g writes).trans h.background_eq
  tidy := h.tidy.writeAll writes
  stored := h.stored.writeAll writes
  read_same c := by
    rw [read_writeAll]
    exact overwrite_same writes c (h.read_same c)

variable [PartialEquivBEq V]

theorem fill (h : g.Represents background maps view) (box : Box) (state : Voxel V) :
    (g.fill box state).Represents background (maps.fill box state)
      fun c => if c ∈ box then state else view c where
  background_eq := (congrArg Voxel.value (unset_fill g box state)).trans h.background_eq
  tidy := h.tidy.fill box state
  stored := h.stored.fill box state
  read_same c := by
    split
    · next hc => exact (read_fill_of_mem g state hc).same
    · next hc =>
      rw [read_fill_of_not_mem g state hc]
      exact h.read_same c

theorem prune {K : Type} [Scalar K] [VoxelValue K V] [LawfulTolerance K V]
    (h : g.Represents background maps view) (tolerance : K) :
    (g.prune tolerance).1.Represents background (maps.prune tolerance)
      (if Scalar.ofInt 0 < tolerance then prunedView k tolerance view else view) where
  background_eq := (background_prune tolerance g).trans h.background_eq
  tidy := h.tidy.prune tolerance
  stored := h.stored.prune tolerance
  read_same c := by
    have hpruned := prune_same tolerance h.read_same c
    split
    · exact hpruned
    · next htolerance => exact hpruned.trans (prunedView_same htolerance view c)

end Grid.Represents

/-! ## Outcomes where there is room -/

/-- The states that a list of voxels is set to, if all of them can be read. -/
def Call.writes? {V : Type} (coords : Except Fault (List Coord))
    (values : Nat → Except Fault (List V)) (active : Nat → Except Fault (List Bool)) :
    Except Fault (List (Coord × Voxel V)) := do
  let cs ← coords
  if cs.isEmpty then return []
  let vs ← values cs.length
  let on ← active cs.length
  return cs.zip (vs.zipWith Voxel.mk on)

namespace Grid

variable {V : Type} {k : Nat} [Sized V] {machine : Machine} (hroom : machine.HasRoom V k)

include hroom

/-- Setting a voxel turns its block into a leaf even when the value is refused. -/
theorem set?_eq (ijk : List Int) (value : Except Fault V) (on : Bool) (g : Grid V k) :
    set? machine ijk value on g =
      match coordinate? ijk, value with
      | .error e, _ => .error e g
      | .ok c, .error e => .error e (g.densify (Box.blockKey k c))
      | .ok c, .ok v => .ok () ((g.densify (Box.blockKey k c)).write c ⟨v, on⟩) := by
  unfold set?
  rw [Attempt.check_bind]
  cases coordinate? ijk with
  | error e => rfl
  | ok c =>
    refine (Attempt.bind_of_eq_ok (makeRoom?_eq_ok hroom (Box.blockKey k c) g)).trans ?_
    cases value with
    | error e => rfl
    | ok v => rfl

theorem setActive?_eq (ijk : List Int) (on : Bool) (g : Grid V k) :
    setActive? machine ijk on g =
      match coordinate? ijk with
      | .error e => .error e g
      | .ok c => .ok () (g.setActive c on) := by
  unfold setActive?
  rw [Attempt.check_bind]
  cases coordinate? ijk with
  | error e => rfl
  | ok c => exact Attempt.bind_of_eq_ok (makeRoom?_eq_ok hroom (Box.blockKey k c) g)

/-- Setting many voxels looks at all values before it writes. -/
theorem setAll?_eq (coords : Except Fault (List Coord)) (values : Nat → Except Fault (List V))
    (active : Nat → Except Fault (List Bool)) (g : Grid V k) :
    setAll? machine coords values active g =
      match Call.writes? coords values active with
      | .error e => .error e g
      | .ok writes => .ok () (g.writeAll writes) := by
  cases coords with
  | error e => rfl
  | ok cs =>
    cases cs with
    | nil => rfl
    | cons c cs =>
      have hwrites : Call.writes? (.ok (c :: cs)) values active = (do
          let vs ← values (c :: cs).length
          let on ← active (c :: cs).length
          return (c :: cs).zip (vs.zipWith Voxel.mk on)) := rfl
      rw [hwrites]
      refine (Attempt.check_bind (values (c :: cs).length) _ g).trans ?_
      cases values (c :: cs).length with
      | error e => rfl
      | ok vs =>
        refine (Attempt.check_bind (active (c :: cs).length) _ g).trans ?_
        cases active (c :: cs).length with
        | error e => rfl
        | ok on => exact writeAll?_eq_ok hroom _ g

end Grid

/-! ## Calls -/

/-- A call that may change a grid. -/
inductive Call where
  | set (ijk : List Int) (value : Nested Number) (on : Bool)
  | setActive (ijk : List Int) (on : Bool)
  | fill (box : Box) (value : Nested Number) (on : Bool)
  | setAll (coords values : Nested Number) (active : Nested Bool)
  | prune (tolerance : Float)
  | clear
  | copy

namespace Call

variable {t : ValueKind} {k : Nat}

/-- What a grid holds after an operation, whether it was refused or not. -/
def settle (op : Grid.Attempt t.Value k Unit) (p : PlacedGrid Float t.Value k) :
    PlacedGrid Float t.Value k :=
  match op p.grid with
  | .ok _ grid => { p with grid }
  | .error _ grid => { p with grid }

/-- Carries out a call. A copy takes the place of the grid if it can be made. -/
def run (machine : Machine) (p : PlacedGrid Float t.Value k) : Call → PlacedGrid Float t.Value k
  | set ijk value on => settle (Grid.set? machine ijk (t.cast? value) on) p
  | setActive ijk on => settle (Grid.setActive? machine ijk on) p
  | fill box value on => settle (Grid.fill? machine box (t.cast? value) on) p
  | setAll coords values active =>
    settle (Grid.setAll? machine (Grid.coordinates? coords) (t.castMany? values)
      (Grid.flags? active)) p
  | prune tolerance => { p with grid := (p.grid.prune tolerance).1 }
  | clear => { p with grid := p.grid.clear }
  | copy => match p.copy? with
    | .ok q => q
    | .error _ => p

theorem grid_run_copy (machine : Machine) (p : PlacedGrid Float t.Value k) :
    (run machine p .copy).grid = p.grid := by
  simp only [run, PlacedGrid.copy?]
  cases p.placement.copy? with
  | error e => rfl
  | ok placement => rfl

/-- Carries out a call on a store of two maps, where there is room for its leaves. -/
def keep (maps : TwoMaps t.Value k) : Call → TwoMaps t.Value k
  | set ijk value on => match Grid.coordinate? ijk, t.cast? value with
    | .error _, _ => maps
    | .ok c, .error _ => maps.densify (Box.blockKey k c)
    | .ok c, .ok v => (maps.densify (Box.blockKey k c)).write c ⟨v, on⟩
  | setActive ijk on => match Grid.coordinate? ijk with
    | .error _ => maps
    | .ok c => maps.setActive c on
  | fill box value on => match t.cast? value with
    | .error _ => maps
    | .ok v => maps.fill box ⟨v, on⟩
  | setAll coords values active =>
    match writes? (Grid.coordinates? coords) (t.castMany? values) (Grid.flags? active) with
    | .error _ => maps
    | .ok writes => maps.writeAll writes
  | prune tolerance => maps.prune tolerance
  | clear => maps.clear
  | copy => maps

/-- What becomes of a map of voxels by a call. -/
def effect (k : Nat) (background : t.Value) (view : Coord → Voxel t.Value) :
    Call → Coord → Voxel t.Value
  | set ijk value on => match Grid.coordinate? ijk, t.cast? value with
    | .ok c, .ok v => Function.update view c ⟨v, on⟩
    | _, _ => view
  | setActive ijk on => match Grid.coordinate? ijk with
    | .ok c => Function.update view c { view c with active := on }
    | .error _ => view
  | fill box value on => match t.cast? value with
    | .ok v => fun c => if c ∈ box then ⟨v, on⟩ else view c
    | .error _ => view
  | setAll coords values active =>
    match writes? (Grid.coordinates? coords) (t.castMany? values) (Grid.flags? active) with
    | .ok writes => fun c => overwrite writes c (view c)
    | .error _ => view
  | prune tolerance =>
    if Scalar.ofInt 0 < tolerance then prunedView k tolerance view else view
  | clear => fun _ => ⟨background, false⟩
  | copy => view

end Call

/-! ## Runs -/

namespace Grid.Represents

variable {t : ValueKind} {k : Nat} {p : PlacedGrid Float t.Value k} {background : t.Value}
variable {maps : TwoMaps t.Value k} {view : Coord → Voxel t.Value} {machine : Machine}

/-- A call keeps a grid that represents a map in step with the map. -/
theorem run (hroom : machine.HasRoom t.Value k) (h : p.grid.Represents background maps view)
    (call : Call) :
    (call.run machine p).grid.Represents background (call.keep maps)
      (call.effect k background view) := by
  cases call with
  | set ijk value on =>
    simp only [Call.run, Call.settle, Call.keep, Call.effect, set?_eq hroom]
    cases coordinate? ijk with
    | error e => exact h
    | ok c =>
      cases t.cast? value with
      | error e => exact h.densify _
      | ok v => exact (h.densify _).write c _
  | setActive ijk on =>
    simp only [Call.run, Call.settle, Call.keep, Call.effect, setActive?_eq hroom]
    cases coordinate? ijk with
    | error e => exact h
    | ok c => exact h.setActive c on
  | fill box value on =>
    simp only [Call.run, Call.settle, Call.keep, Call.effect, fill?_eq hroom]
    cases t.cast? value with
    | error e =>
      cases box.isEmpty with
      | true => exact h
      | false => exact h
    | ok v => exact h.fill box ⟨v, on⟩
  | setAll coords values active =>
    simp only [Call.run, Call.settle, Call.keep, Call.effect, setAll?_eq hroom]
    cases Call.writes? (coordinates? coords) (t.castMany? values) (flags? active) with
    | error e => exact h
    | ok writes => exact h.writeAll writes
  | prune tolerance => exact h.prune tolerance
  | clear => exact h.clear
  | copy =>
    rw [Call.grid_run_copy]
    exact h

end Grid.Represents

namespace Call

variable {t : ValueKind} {k : Nat}

/-- Carries out calls one after the other. -/
def runAll (machine : Machine) (calls : List Call) (p : PlacedGrid Float t.Value k) :
    PlacedGrid Float t.Value k :=
  calls.foldl (run machine) p

/-- Carries out calls one after the other on a store of two maps. -/
def keepAll (calls : List Call) (maps : TwoMaps t.Value k) : TwoMaps t.Value k :=
  calls.foldl keep maps

/-- What becomes of a map of voxels by calls one after the other. -/
def effects (k : Nat) (background : t.Value) (calls : List Call) (view : Coord → Voxel t.Value) :
    Coord → Voxel t.Value :=
  calls.foldl (effect k background) view

end Call

theorem Grid.Represents.runAll {t : ValueKind} {k : Nat} {machine : Machine}
    (hroom : machine.HasRoom t.Value k) {p : PlacedGrid Float t.Value k} {background : t.Value}
    {maps : TwoMaps t.Value k} {view : Coord → Voxel t.Value}
    (h : p.grid.Represents background maps view) (calls : List Call) :
    (Call.runAll machine calls p).grid.Represents background (Call.keepAll calls maps)
      (Call.effects k background calls view) := by
  induction calls generalizing p maps view with
  | nil => exact h
  | cons call calls ih => exact ih (h.run hroom call)

/-- **A grid is a plain map of voxels.** On a machine with room for its leaves, after any calls on a
new grid, the store is tidy, two maps of leaves and of tiles that have been through the same calls
are apart and hold its blocks, and every voxel reads as it does in a map of voxels that has been
through the same calls. -/
theorem Grid.read_after_calls (t : ValueKind) (k : Nat) {machine : Machine}
    (hroom : machine.HasRoom t.Value k) (background : t.Value) (placement : Placement Float)
    (calls : List Call) :
    let after := Call.runAll machine calls ⟨(.empty background : Grid t.Value k), placement⟩
    after.grid.Tidy ∧
      (Call.keepAll calls (.empty background : TwoMaps t.Value k)).Stores after.grid ∧
      ∀ c, (after.grid.read c).Same
        (Call.effects k background calls (fun _ => ⟨background, false⟩) c) := by
  intro after
  have hnew := Grid.Represents.empty (k := k) background
  have hafter : after.grid.Represents background _ _ :=
    hnew.runAll (p := ⟨.empty background, placement⟩) hroom calls
  exact ⟨hafter.tidy, hafter.stored, hafter.read_same⟩

/-- Calls on a grid of binary64 numbers with blocks of edge eight, on the machine of words. -/
theorem Grid.read_after_calls_on_words :
    let background : ValueKind.double.Value := (0.0 : Float)
    let calls : List Call := [.fill ⟨⟨-8, 0, 0⟩, ⟨7, 9, 7⟩⟩ (.leaf (.real 2.5)) true,
      .set [-1, 2, 3] (.leaf (.int 1)) false, .prune 0.0, .copy, .setActive [5, 5] false]
    let after := Call.runAll .words calls ⟨(.empty background : Grid _ 3), .identity⟩
    Machine.words.HasRoom ValueKind.double.Value 3 ∧ after.grid.Tidy ∧
      (Call.keepAll calls (.empty background : TwoMaps _ 3)).Stores after.grid ∧
      ∀ c, (after.grid.read c).Same
        (Call.effects 3 background calls (fun _ => ⟨background, false⟩) c) :=
  have hroom : Machine.words.HasRoom ValueKind.double.Value 3 := ⟨rfl, rfl⟩
  ⟨hroom, read_after_calls .double 3 hroom _ .identity _⟩

end SparseVoxel

import SparseVoxel.Proofs.Grid.Calls
import SparseVoxel.Proofs.Outcome

/-!
# Writing many voxels and writing them one by one

What a block stores after a batch of writes depends on the writes to it, in their order, and on
nothing else of the batch; and so it does when the voxels are set one by one (`block?_setEach`).
`setAll?_stores_single_writes` is the main statement: a batch stores what its single writes store
one after the other, the last write to a voxel counts, and voxels without a write keep their state.

Coordinates, values and flags are told apart: the coordinates are read from nested lists
(`coordinates?_nest`), and there may be one flag for all voxels (`FlagsFor`).
-/

namespace SparseVoxel

namespace Block

variable {V : Type} {k : Nat}

theorem writeAll_append (b : Block V k) (ws ws' : List (Coord × Voxel V)) :
    b.writeAll (ws ++ ws') = (b.writeAll ws).writeAll ws' := by
  simp only [writeAll, cells, List.foldl_append]

end Block

namespace Grid

variable {V : Type} {k : Nat}

/-! ## Setting voxels one by one -/

theorem storeWrites_append (absent : Voxel V) (ws ws' : List (Coord × Voxel V))
    (stored : Option (Block V k)) :
    storeWrites absent (ws ++ ws') stored =
      storeWrites absent ws' (storeWrites absent ws stored) := by
  by_cases hws : ws = []
  · rw [hws, storeWrites_nil, List.nil_append]
  · by_cases hws' : ws' = []
    · rw [hws', storeWrites_nil, List.append_nil]
    · have happend : ws ++ ws' ≠ [] := List.append_ne_nil_of_left_ne_nil hws ws'
      simp only [storeWrites, if_neg hws, if_neg hws', if_neg happend, Option.getD_some,
        Block.writeAll_append]

/-- Sets voxels one after the other, each in a block that has been turned into a leaf. -/
def setEach (g : Grid V k) (writes : List (Coord × Voxel V)) : Grid V k :=
  writes.foldl (fun g w => (g.densify (Box.blockKey k w.1)).write w.1 w.2) g

theorem unset_setEach (g : Grid V k) (writes : List (Coord × Voxel V)) :
    (g.setEach writes).unset = g.unset :=
  List.foldlRecOn (motive := fun g' : Grid V k => g'.unset = g.unset) _ _ rfl fun _ h _ _ => h

theorem block?_densify_write (g : Grid V k) (w : Coord × Voxel V) (key : Coord) :
    ((g.densify (Box.blockKey k w.1)).write w.1 w.2).block? key =
      storeWrites g.unset (writesTo k key [w]) (g.block? key) := by
  rw [write, densify, block?_alterBlock, blockAt_alterBlock, block?_alterBlock, if_pos rfl]
  by_cases hkey : key = Box.blockKey k w.1
  · subst hkey
    have hone : writesTo k (Box.blockKey k w.1) [w] = [w] := by simp [writesTo]
    rw [if_pos rfl, hone, storeWrites, if_neg (List.cons_ne_nil _ _)]
    rfl
  · have hnone : writesTo k key [w] = [] := by simp [writesTo, Ne.symm hkey]
    rw [if_neg hkey, if_neg hkey, hnone, storeWrites_nil]

/-- Setting voxels one by one stores a leaf under the key of each block that is written to. -/
theorem block?_setEach (g : Grid V k) (writes : List (Coord × Voxel V)) (key : Coord) :
    (g.setEach writes).block? key = storeWrites g.unset (writesTo k key writes) (g.block? key) := by
  induction writes generalizing g with
  | nil => exact (storeWrites_nil _ _).symm
  | cons w writes ih =>
    have hsplit : writesTo k key (w :: writes) = writesTo k key [w] ++ writesTo k key writes :=
      List.filter_append [w] writes
    rw [hsplit, storeWrites_append, ← block?_densify_write]
    exact ih _

theorem block?_writeAll_eq_setEach (g : Grid V k) (writes : List (Coord × Voxel V)) (key : Coord) :
    (g.writeAll writes).block? key = (g.setEach writes).block? key := by
  rw [block?_writeAll, block?_setEach]

end Grid

/-- The last write to a voxel counts. -/
theorem overwrite_of_last {V : Type} {writes : List (Coord × Voxel V)} {i : Nat} {c : Coord}
    {state : Voxel V} (hi : writes[i]? = some (c, state))
    (hlast : ∀ j w, i < j → writes[j]? = some w → w.1 ≠ c) (old : Voxel V) :
    overwrite writes c old = state := by
  induction writes generalizing i old with
  | nil => cases hi
  | cons w writes ih =>
    cases i with
    | zero =>
      cases hi
      show overwrite writes c (if c = c then state else old) = state
      rw [if_pos rfl]
      refine overwrite_of_not_mem (fun w hw => ?_) _
      obtain ⟨j, hj⟩ := List.mem_iff_getElem?.mp hw
      exact hlast (j + 1) w (Nat.zero_lt_succ j) hj
    | succ i => exact ih hi (fun j v hij hj => hlast (j + 1) v (Nat.succ_lt_succ hij) hj) _

/-! ## Coordinates and flags as nested lists -/

namespace Nested

variable {α β : Type}

/-- Rows of one shape make an array of one more axis. -/
theorem rowsToTensor?_map {f : β → Nested α} {shape : List Nat} {row : β → List α}
    (h : ∀ b, (f b).toTensor? = some ⟨shape, row b⟩) (bs : List β) :
    rowsToTensor? (bs.map f) =
      some (bs.length, ⟨if bs = [] then [] else shape, bs.flatMap row⟩) := by
  induction bs with
  | nil => rfl
  | cons b bs ih =>
    have hshape : bs.length = 0 ∨ (if bs = [] then [] else shape) = shape := by
      cases bs with
      | nil => exact Or.inl rfl
      | cons _ _ => exact Or.inr (if_neg (List.cons_ne_nil _ _))
    simp only [List.map_cons, rowsToTensor?, h, ih, Option.bind_eq_bind, Option.bind_some,
      if_pos hshape, if_neg (List.cons_ne_nil b bs), List.length_cons, List.flatMap_cons]

theorem requireTensor_map {f : β → Nested α} {shape : List Nat} {row : β → List α}
    (h : ∀ b, (f b).toTensor? = some ⟨shape, row b⟩) (hshape : shape.length < Tensor.mostAxes)
    (bs : List β) :
    (Nested.node (bs.map f)).requireTensor =
      .ok ⟨bs.length :: (if bs = [] then [] else shape), bs.flatMap row⟩ := by
  have haxes : ¬ Tensor.mostAxes < (bs.length :: (if bs = [] then [] else shape)).length := by
    split
    · exact Nat.not_lt.mpr (by decide : 1 ≤ Tensor.mostAxes)
    · simpa using hshape
  simp only [requireTensor, toTensor?, rowsToTensor?_map h, Option.map_some, if_neg haxes]

end Nested

theorem Tensor.chunks_flatMap {α β : Type} {width : Nat} {row : β → List α}
    (h : ∀ b, (row b).length = width) (bs : List β) :
    Tensor.chunks width bs.length (bs.flatMap row) = bs.map row := by
  induction bs with
  | nil => rfl
  | cons b bs ih =>
    rw [List.length_cons, List.flatMap_cons, Tensor.chunks, List.map_cons,
      List.take_left' (h b), List.drop_left' (h b), ih]

/-- Coordinates as nested lists, a list of three integers for each. -/
def Coord.nest (cs : List Coord) : Nested Number :=
  .node (cs.map fun c => .node (c.toList.map fun n => .leaf (.int n)))

namespace Grid

/-- Coordinates of 64 bits are read as they are. -/
theorem coordinates?_nest {cs : List Coord}
    (h : ∀ c ∈ cs, ∀ n ∈ c.toList, Word.isSigned Word.bound64 n = true) :
    coordinates? (Coord.nest cs) = .ok cs := by
  have hrow : ∀ c : Coord, (Nested.node (c.toList.map fun n => .leaf (Number.int n))).toTensor? =
      some ⟨[3], c.toList.map Number.int⟩ := fun c => rfl
  have hwords : (cs.flatMap fun c => c.toList.map Number.int).mapM (Number.word? Word.bound64) =
      .ok (cs.flatMap Vec3.toList) := by
    rw [← List.map_flatMap, List.mapM_map]
    refine (mapM_eq_ok (g := id) fun n hn => ?_).trans (congrArg _ (List.map_id _))
    obtain ⟨c, hc, hn⟩ := List.mem_flatMap.mp hn
    exact if_pos (h c hc n hn)
  have hlength : (cs.flatMap Vec3.toList).length = cs.length * 3 := by
    simp [Vec3.toList]
  refine bind_eq_ok.mpr ⟨_, Nested.requireTensor_map hrow (by decide) cs, ?_⟩
  refine bind_eq_ok.mpr ⟨_, hwords, ?_⟩
  have hthree : ∀ c : Coord, c.toList.length = 3 := fun c => rfl
  rw [hlength, Nat.mul_mod_left, if_neg (not_not_intro rfl), Nat.mul_div_cancel _ (by decide),
    Tensor.chunks_flatMap hthree, List.filterMap_map]
  exact congrArg Except.ok List.filterMap_some

/-- Flags for a number of voxels: one for each, or one for all. -/
inductive FlagsFor (count : Nat) : Nested Bool → List Bool → Prop
  | each {on : List Bool} (h : on.length = count) : FlagsFor count (.node (on.map .leaf)) on
  | shared (b : Bool) : FlagsFor count (.leaf b) (.replicate count b)

theorem FlagsFor.flags? {count : Nat} {active : Nested Bool} {on : List Bool}
    (h : FlagsFor count active on) : Grid.flags? active count = .ok on := by
  cases h with
  | shared b => rfl
  | @each on h =>
    have hrow : ∀ b : Bool, (Nested.leaf b).toTensor? = some ⟨[], [b]⟩ := fun b => rfl
    have hentries : on.flatMap (fun b => [b]) = on := List.flatMap_singleton' on
    have hread := Nested.requireTensor_map hrow (by decide) on
    rw [hentries, ite_self] at hread
    refine bind_eq_ok.mpr ⟨_, hread, ?_⟩
    cases on with
    | nil => exact if_pos h
    | cons b on =>
      cases on with
      | nil =>
        cases h
        rfl
      | cons b' on => exact if_pos h

theorem FlagsFor.length_eq {count : Nat} {active : Nested Bool} {on : List Bool}
    (h : FlagsFor count active on) : on.length = count := by
  cases h with
  | each h => exact h
  | shared b => exact List.length_replicate

/-! ## The main statement -/

/-- The writes of a batch in its order, a value and a flag for each coordinate. -/
def pairUp {V : Type} (cs : List Coord) (vs : List V) (on : List Bool) : List (Coord × Voxel V) :=
  cs.zip (vs.zipWith Voxel.mk on)

section PairUp

variable {V : Type} {cs : List Coord} {vs : List V} {on : List Bool}

theorem map_fst_pairUp (hvs : vs.length = cs.length) (hon : on.length = cs.length) :
    (pairUp cs vs on).map Prod.fst = cs :=
  List.map_fst_zip (by simp [hvs, hon])

theorem getElem?_pairUp {i : Nat} {c : Coord} {v : V} {b : Bool} (hc : cs[i]? = some c)
    (hv : vs[i]? = some v) (hb : on[i]? = some b) : (pairUp cs vs on)[i]? = some (c, ⟨v, b⟩) := by
  rw [pairUp, List.getElem?_zip_eq_some, List.getElem?_zipWith, hv, hb]
  exact ⟨hc, rfl⟩

end PairUp

section Main

variable {V : Type} {k : Nat} [Sized V] {machine : Machine} {cs : List Coord} {vs : List V}
variable {on : List Bool}

theorem setAll?_eq_writeAll (hroom : machine.HasRoom V k)
    (hcs : ∀ c ∈ cs, ∀ n ∈ c.toList, Word.isSigned Word.bound64 n = true)
    {values : Nat → Except Fault (List V)} (hvalues : values cs.length = .ok vs)
    {active : Nested Bool} (hactive : FlagsFor cs.length active on) (g : Grid V k) :
    setAll? machine (coordinates? (Coord.nest cs)) values (flags? active) g =
      .ok () (g.writeAll (pairUp cs vs on)) := by
  have hwrites : Call.writes? (.ok cs) values (flags? active) = .ok (pairUp cs vs on) := by
    cases cs with
    | nil => rfl
    | cons c cs =>
      refine bind_eq_ok.mpr ⟨c :: cs, rfl, ?_⟩
      refine bind_eq_ok.mpr ⟨vs, hvalues, ?_⟩
      exact bind_eq_ok.mpr ⟨on, hactive.flags?, rfl⟩
  rw [setAll?_eq hroom, coordinates?_nest hcs, hwrites]

theorem each_set?_eq_setEach (hroom : machine.HasRoom V k) (writes : List (Coord × Voxel V))
    (g : Grid V k) :
    Attempt.each (fun w => set? machine w.1.toList (.ok w.2.value) w.2.active) writes g =
      .ok () (g.setEach writes) :=
  Attempt.each_eq_ok (fun w g => set?_eq hroom w.1.toList (.ok w.2.value) w.2.active g) writes g

/-- **A batch of writes is its single writes in order.** Voxels of 64 bits, in any order and however
often, with a value for each and flags for them, are set at once and one by one: the same is stored
afterwards. Voxels without a write keep their state, and of several writes to a voxel the last
counts. -/
theorem setAll?_stores_single_writes (hroom : machine.HasRoom V k) (g : Grid V k)
    (hcs : ∀ c ∈ cs, ∀ n ∈ c.toList, Word.isSigned Word.bound64 n = true)
    (hvs : vs.length = cs.length) {values : Nat → Except Fault (List V)}
    (hvalues : values cs.length = .ok vs) {active : Nested Bool}
    (hactive : FlagsFor cs.length active on) :
    ∃ bulk single : Grid V k,
      setAll? machine (coordinates? (Coord.nest cs)) values (flags? active) g = .ok () bulk ∧
      Attempt.each (fun w => set? machine w.1.toList (.ok w.2.value) w.2.active)
        (pairUp cs vs on) g = .ok () single ∧
      bulk.background = single.background ∧ (∀ key, bulk.block? key = single.block? key) ∧
      (∀ c, c ∉ cs → bulk.read c = g.read c) ∧
      ∀ (i : Nat) (c : Coord), cs[i]? = some c → (∀ j, i < j → cs[j]? ≠ some c) →
        ∃ v b, vs[i]? = some v ∧ on[i]? = some b ∧ bulk.read c = ⟨v, b⟩ := by
  have hfst : (pairUp cs vs on).map Prod.fst = cs := map_fst_pairUp hvs hactive.length_eq
  refine ⟨_, _, setAll?_eq_writeAll hroom hcs hvalues hactive g, each_set?_eq_setEach hroom _ g,
    ?_, block?_writeAll_eq_setEach g _, fun c hc => ?_, fun i c hi hlast => ?_⟩
  · exact (background_writeAll g _).trans (congrArg Voxel.value (unset_setEach g _)).symm
  · rw [read_writeAll]
    refine overwrite_of_not_mem (fun w hw he => hc ?_) _
    rw [← hfst, ← he]
    exact List.mem_map_of_mem hw
  · obtain ⟨hlt, -⟩ := List.getElem?_eq_some_iff.mp hi
    have hv : vs[i]? = some vs[i] := List.getElem?_eq_getElem _
    have hb := List.getElem?_eq_getElem (hactive.length_eq.symm ▸ hlt : i < on.length)
    refine ⟨_, _, hv, hb, ?_⟩
    rw [read_writeAll]
    refine overwrite_of_last (getElem?_pairUp hi hv hb) (fun j w hij hj he => hlast j hij ?_) _
    rw [← hfst, List.getElem?_map, hj, ← he]
    rfl

/-- Four writes to two blocks, one voxel written twice, on the machine of words. -/
theorem setAll?_stores_single_writes_of_repeated :
    let g : Grid Int32 1 := (Grid.empty 0).fill ⟨⟨0, 0, 0⟩, ⟨1, 1, 1⟩⟩ ⟨9, true⟩
    let cs : List Coord := [⟨3, 0, -1⟩, ⟨0, 0, 0⟩, ⟨3, 0, -1⟩, ⟨1, 1, 1⟩]
    let values : Nat → Except Fault (List Int32) := fun _ => .ok [1, 2, 3, 4]
    let on := [true, false, false, true]
    ∃ bulk single : Grid Int32 1,
      setAll? .words (coordinates? (Coord.nest cs)) values (flags? (.node (on.map .leaf))) g =
        .ok () bulk ∧
      Attempt.each (fun w => set? .words w.1.toList (.ok w.2.value) w.2.active)
        (pairUp cs [1, 2, 3, 4] on) g = .ok () single ∧
      (∀ key, bulk.block? key = single.block? key) ∧
      bulk.read ⟨3, 0, -1⟩ = ⟨3, false⟩ ∧ bulk.read ⟨1, 0, 0⟩ = ⟨9, true⟩ := by
  intro g cs values on
  have hroom : Machine.words.HasRoom Int32 1 := ⟨rfl, rfl⟩
  have hcs : ∀ c ∈ cs, ∀ n ∈ c.toList, Word.isSigned Word.bound64 n = true := by decide
  have hvs : ([1, 2, 3, 4] : List Int32).length = cs.length := rfl
  have hvalues : values cs.length = .ok [1, 2, 3, 4] := rfl
  have hon : FlagsFor cs.length (.node (on.map .leaf)) on := .each rfl
  have hlater : ∀ j, 2 < j → cs[j]? ≠ some ⟨3, 0, -1⟩
    | 3, _ => by decide
    | _ + 4, _ => by simp [cs]
  obtain ⟨bulk, single, hbulk, hsingle, -, hblocks, hold, hlast⟩ :=
    setAll?_stores_single_writes hroom g hcs hvs hvalues hon
  refine ⟨bulk, single, hbulk, hsingle, hblocks, ?_, ?_⟩
  · obtain ⟨v, b, hv, hb, hread⟩ := hlast 2 ⟨3, 0, -1⟩ rfl hlater
    cases hv
    cases hb
    exact hread
  · rw [hold ⟨1, 0, 0⟩ (by decide)]
    decide +kernel

end Main

end Grid

end SparseVoxel

import SparseVoxel.Proofs.Grid.ActiveQueries
import SparseVoxel.Proofs.Grid.Invariant

/-!
# Writes that are refused

A refused write has not come to writing. Filling and bulk writing look at all values before they
touch a block, and a single write has at most turned the block of its voxel into a leaf. So voxels
and their number stay as they were, and so does the box around the active ones if the machine finds
the voxels of that block where they lie (`Kept`).

There is one exception. Where there is no room for a leaf, the block that was to become one is lost
(`Loses`), and in filling and bulk writing the blocks before it have been written. A refused write
comes to one of the two (`kept_or_loses_of_refused`).
-/

namespace SparseVoxel

namespace Grid

variable {V : Type} {k : Nat} {machine : Machine} {g g' : Grid V k} {key : Coord} {e : Fault}

/-! ## No room for a leaf -/

section Room

variable [Sized V]

/-- There is no room for a leaf, and one of some blocks, which was to become a leaf, is lost. Other
blocks than these stay as they are. -/
structure Loses (machine : Machine) (e : Fault) (keys : List Coord) (g g' : Grid V k) : Prop where
  no_room : machine.reserve? (.replicate (Box.edge k)) (Sized.bytes V) = .error e
  lost : ∃ key ∈ keys, (g.block? key).any Block.isLeaf = false ∧ g'.block? key = none
  kept : ∀ key, key ∉ keys → g'.block? key = g.block? key

theorem Loses.mono {keys keys' : List Coord} (h : Loses machine e keys g g')
    (hkeys : ∀ key ∈ keys, key ∈ keys') : Loses machine e keys' g g' where
  no_room := h.no_room
  lost := h.lost.imp fun key hkey => ⟨hkeys key hkey.1, hkey.2⟩
  kept key hkey := h.kept key fun hmem => hkey (hkeys key hmem)

theorem loses_of_makeRoom? (h : makeRoom? machine key g = .error e g') :
    Loses machine e [key] g g' := by
  obtain ⟨hleaf, hreserve, rfl⟩ := makeRoom?_eq_error_iff.mp h
  refine ⟨hreserve, ⟨key, List.mem_cons_self, hleaf, ?_⟩, fun other hother => ?_⟩
  · rw [block?_dropBlock, if_pos rfl]
  · rw [block?_dropBlock, if_neg fun he => hother (List.mem_singleton.mpr he)]

/-- Where each step of a list only touches a block of its own, and is refused only for lack of
room, the list is refused only so. -/
theorem loses_of_each {α : Type} {step : α → Attempt V k Unit} {keyOf : α → Coord}
    (hkeeps : ∀ a key stored, key ≠ keyOf a →
      Attempt.Keeps (fun g => g.block? key = stored) (step a))
    (hstep : ∀ a g g', step a g = .error e g' → makeRoom? machine (keyOf a) g = .error e g')
    {as : List α} (hnodup : (as.map keyOf).Nodup) (h : Attempt.each step as g = .error e g') :
    Loses machine e (as.map keyOf) g g' := by
  induction as generalizing g with
  | nil => cases h
  | cons a as ih =>
    obtain ⟨hnot, hnodup⟩ := List.nodup_cons.mp hnodup
    rcases Attempt.bind_eq_error.mp h with hrefused | ⟨_, g₁, hdone, hrest⟩
    · refine (loses_of_makeRoom? (hstep a g g' hrefused)).mono fun key hkey => ?_
      exact List.mem_singleton.mp hkey ▸ List.mem_cons_self
    · have hlater := ih hnodup hrest
      have hsame : ∀ key, key ≠ keyOf a → g₁.block? key = g.block? key := by
        intro key hkey
        have hkept := hkeeps a key _ hkey g rfl
        rw [hdone] at hkept
        exact hkept
      refine ⟨hlater.no_room, ?_, fun key hkey => ?_⟩
      · obtain ⟨key, hkey, hleaf, hnone⟩ := hlater.lost
        rw [hsame key fun he => hnot (he ▸ hkey)] at hleaf
        exact ⟨key, List.mem_cons_of_mem _ hkey, hleaf, hnone⟩
      · rw [List.map_cons, List.mem_cons, not_or] at hkey
        rw [hlater.kept key hkey.2, hsame key hkey.1]

/-! ## Blocks that an operation leaves alone -/

variable {stored : Option (Block V k)}

theorem keeps_block_makeRoom? {other : Coord} (hne : key ≠ other) :
    Attempt.Keeps (fun g : Grid V k => g.block? key = stored) (makeRoom? machine other) := by
  intro g h
  cases hresult : makeRoom? machine other g with
  | ok _ g' => exact (congrArg (block? · key) (makeRoom?_eq_ok_iff.mp hresult).1).trans h
  | error e g' =>
    have hkept := (loses_of_makeRoom? hresult).kept key fun he => hne (List.mem_singleton.mp he)
    exact hkept.trans h

theorem keeps_block_writeBlock? {group : Coord × List (Coord × Voxel V)} (hne : key ≠ group.1) :
    Attempt.Keeps (fun g : Grid V k => g.block? key = stored) (writeBlock? machine group) :=
  .bind (keeps_block_makeRoom? hne) fun _ => .modify fun g h => by
    rw [block?_alterBlock, if_neg hne]
    exact h

theorem keeps_block_fillBlock? [BEq V] {box : Box} {state : Voxel V} {other : Coord}
    (hne : key ≠ other) :
    Attempt.Keeps (fun g : Grid V k => g.block? key = stored)
      (fillBlock? machine box state other) := by
  have hfill : ∀ g : Grid V k, g.block? key = stored →
      (fillBlock box state g other).block? key = stored := fun g h =>
    (block?_fillBlock_of_ne g hne).trans h
  unfold fillBlock?
  split
  · exact .modify hfill
  · exact .bind (keeps_block_makeRoom? hne) fun _ => .modify hfill

/-! ## What refuses a write -/

theorem set?_refused {ijk : List Int} {value : Except Fault V} {on : Bool}
    (h : set? machine ijk value on g = .error e g') :
    g' = g ∨ ∃ c, coordinate? ijk = .ok c ∧
      (g' = g.densify (Box.blockKey k c) ∨ Loses machine e [Box.blockKey k c] g g') := by
  rcases Attempt.check_bind_eq_error.mp h with ⟨-, rfl⟩ | ⟨c, hc, h⟩
  · exact Or.inl rfl
  · refine Or.inr ⟨c, hc, ?_⟩
    rcases Attempt.bind_eq_error.mp h with h | ⟨_, g₁, hroom, h⟩
    · exact Or.inr (loses_of_makeRoom? h)
    · rw [(makeRoom?_eq_ok_iff.mp hroom).1] at h
      refine Or.inl ?_
      rcases Attempt.bind_eq_error.mp h with h | ⟨_, g₂, hdense, h⟩
      · cases h
      · cases hdense
        rcases Attempt.check_bind_eq_error.mp h with ⟨-, rfl⟩ | ⟨v, -, h⟩
        · rfl
        · cases h

theorem setActive?_refused {ijk : List Int} {on : Bool}
    (h : setActive? machine ijk on g = .error e g') :
    g' = g ∨ ∃ c, coordinate? ijk = .ok c ∧ Loses machine e [Box.blockKey k c] g g' := by
  rcases Attempt.check_bind_eq_error.mp h with ⟨-, rfl⟩ | ⟨c, hc, h⟩
  · exact Or.inl rfl
  · refine Or.inr ⟨c, hc, ?_⟩
    rcases Attempt.bind_eq_error.mp h with h | ⟨_, _, _, h⟩
    · exact loses_of_makeRoom? h
    · cases h

theorem fill?_refused [BEq V] {box : Box} {value : Except Fault V} {on : Bool}
    (h : fill? machine box value on g = .error e g') :
    g' = g ∨ Loses machine e (box.blocks k) g g' := by
  unfold fill? at h
  split at h
  · cases h
  · rcases Attempt.check_bind_eq_error.mp h with ⟨-, rfl⟩ | ⟨v, -, h⟩
    · exact Or.inl rfl
    · refine Or.inr ?_
      have hnodup : ((box.blocks k).map id).Nodup := (List.map_id _).symm ▸ Box.nodup_blocks box k
      have hstep : ∀ key (g g' : Grid V k), fillBlock? machine box ⟨v, on⟩ key g = .error e g' →
          makeRoom? machine (id key) g = .error e g' := by
        intro key g g' hstep
        unfold fillBlock? at hstep
        split at hstep
        · cases hstep
        · exact (Attempt.bind_eq_error.mp hstep).resolve_right fun ⟨_, _, _, hfill⟩ => nomatch hfill
      exact List.map_id (box.blocks k) ▸
        loses_of_each (fun _ _ _ => keeps_block_fillBlock?) hstep hnodup h

theorem writeAll?_refused {writes : List (Coord × Voxel V)}
    (h : writeAll? machine writes g = .error e g') :
    g' = g ∨ Loses machine e (writes.map fun w => Box.blockKey k w.1) g g' := by
  unfold writeAll? at h
  split at h
  · cases h
  · rcases Attempt.check_bind_eq_error.mp h with ⟨-, rfl⟩ | ⟨_, -, h⟩
    · exact Or.inl rfl
    · refine Or.inr ?_
      rw [groupByBlock_eq] at h
      have hstep : ∀ group (g g' : Grid V k), writeBlock? machine group g = .error e g' →
          makeRoom? machine group.1 g = .error e g' := fun group g g' hstep =>
        (Attempt.bind_eq_error.mp hstep).resolve_right fun ⟨_, _, _, hwrite⟩ => nomatch hwrite
      have hloses := loses_of_each (fun _ _ _ => keeps_block_writeBlock?) hstep
        (nodup_keys_toList (groupWrites k writes)) h
      refine hloses.mono fun key hkey => ?_
      rw [Std.TreeMap.map_fst_toList_eq_keys, keys_groupWrites] at hkey
      exact mem_distinctKeys.mp hkey

theorem setAll?_refused {coords : Except Fault (List Coord)} {values : Nat → Except Fault (List V)}
    {active : Nat → Except Fault (List Bool)}
    (h : setAll? machine coords values active g = .error e g') :
    g' = g ∨ ∃ cs, coords = .ok cs ∧ Loses machine e (cs.map (Box.blockKey k)) g g' := by
  rcases Attempt.check_bind_eq_error.mp h with ⟨-, rfl⟩ | ⟨cs, hcs, h⟩
  · exact Or.inl rfl
  split at h
  · cases h
  rcases Attempt.check_bind_eq_error.mp h with ⟨-, rfl⟩ | ⟨vs, -, h⟩
  · exact Or.inl rfl
  rcases Attempt.check_bind_eq_error.mp h with ⟨-, rfl⟩ | ⟨on, -, h⟩
  · exact Or.inl rfl
  refine (writeAll?_refused h).imp_right fun hloses => ⟨cs, hcs, hloses.mono fun key hkey => ?_⟩
  obtain ⟨w, hw, rfl⟩ := List.mem_map.mp hkey
  exact List.mem_map_of_mem (List.of_mem_zip hw).1

end Room

end Grid

namespace Block

variable {V : Type} {k : Nat}

/-- A block has its active voxels in the same box when it has become a leaf. -/
theorem activeBox?_leaf_cells (b : Block V k) (key : Coord) :
    (Block.leaf b.cells).activeBox? key = b.activeBox? key := by
  refine (((Block.leaf b.cells).encloses_activeBox? key).congr fun c => ?_).unique
    (b.encloses_activeBox? key)
  rw [read_leaf_cells]

/-- A machine answers the same for a block that has become a leaf. Where it was an active tile, the
machine has to find the voxels of the leaf where they lie. -/
theorem boundActives?_leaf_cells {machine : Machine} {key : Coord} {b : Block V k}
    (h : ∀ state, b = .tile state → state.active = true → machine.Finds k key) :
    (Block.leaf b.cells).boundActives? machine key = b.boundActives? machine key := by
  cases b with
  | leaf cells => rfl
  | tile state =>
    have hbox := activeBox?_leaf_cells (.tile state : Block V k) key
    cases hactive : state.active with
    | true =>
      exact (boundActives?_of_finds (h state rfl hactive)).trans (congrArg Except.ok hbox)
    | false =>
      have hnone : (Block.tile state : Block V k).activeBox? key = none :=
        if_neg (ne_true_of_eq_false hactive)
      rw [boundActives?_of_none hnone, boundActives?_of_none (hbox.trans hnone)]

end Block

namespace Grid

variable {V : Type} {k : Nat} {machine : Machine} {g g' : Grid V k} {key : Coord} {e : Fault}

/-! ## Boxes around active voxels -/

/-- What a machine answers for the active voxels under a key. -/
def boundAt? (machine : Machine) (g : Grid V k) (key : Coord) : Except Fault (Option Box) :=
  (g.blockAt key).boundActives? machine key

/-- The box around what is answered for some keys and a box that has been found before. -/
def unionOf? (answer : Coord → Except Fault (Option Box)) (keys : List Coord)
    (found : Option Box) : Except Fault (Option Box) :=
  keys.foldlM (fun found key => do return Box.union? found (← answer key)) found

/-- Whether an answer counts for a box around all of them. -/
def counts : Except Fault (Option Box) → Bool
  | .ok none => false
  | _ => true

theorem unionOf?_cons (answer : Coord → Except Fault (Option Box)) (keys : List Coord)
    (found : Option Box) :
    unionOf? answer (key :: keys) found =
      answer key >>= fun box => unionOf? answer keys (Box.union? found box) := by
  unfold unionOf?
  rw [List.foldlM_cons]
  cases answer key with
  | error e => rfl
  | ok box => rfl

/-- Keys without an answer that counts may be left out. -/
theorem unionOf?_filter_counts (answer : Coord → Except Fault (Option Box)) (keys : List Coord)
    (found : Option Box) :
    unionOf? answer (keys.filter fun key => counts (answer key)) found =
      unionOf? answer keys found := by
  induction keys generalizing found with
  | nil => rfl
  | cons key keys ih =>
    rw [List.filter_cons]
    split
    · rw [unionOf?_cons, unionOf?_cons]
      exact congrArg _ (funext fun box => ih _)
    · next hcounts =>
      have hnone : answer key = .ok none := by
        unfold counts at hcounts
        split at hcounts
        · assumption
        · exact absurd rfl hcounts
      rw [unionOf?_cons, hnone, ih]
      cases found with
      | none => rfl
      | some b => rfl

theorem boundActive?_eq_unionOf? (machine : Machine) (g : Grid V k) :
    g.boundActive? machine = unionOf? (g.boundAt? machine) g.blocks.keys none := by
  have hfold : ∀ (blocks : List (Coord × Block V k)) (found : Option Box),
      (∀ p ∈ blocks, g.block? p.1 = some p.2) →
        blocks.foldlM (fun found p => do
            return Box.union? found (← p.2.boundActives? machine p.1)) found =
          unionOf? (g.boundAt? machine) (blocks.map Prod.fst) found := by
    intro blocks
    induction blocks with
    | nil => exact fun _ _ => rfl
    | cons p blocks ih =>
      intro found hblocks
      obtain ⟨hp, hblocks⟩ := List.forall_mem_cons.mp hblocks
      have hanswer : g.boundAt? machine p.1 = p.2.boundActives? machine p.1 := by
        rw [boundAt?, blockAt, hp]
        rfl
      rw [List.foldlM_cons, List.map_cons, unionOf?_cons, hanswer]
      cases p.2.boundActives? machine p.1 with
      | error e => rfl
      | ok box => exact ih _ hblocks
  rw [← Std.TreeMap.map_fst_toList_eq_keys]
  exact hfold _ none fun p hp => mem_toList_blocks.mp hp

/-- What is answered for the active voxels of a grid depends on the answers for its blocks only. -/
theorem boundActive?_congr (h : ∀ key, g'.boundAt? machine key = g.boundAt? machine key) :
    g'.boundActive? machine = g.boundActive? machine := by
  have hmem : ∀ (g : Grid V k) key,
      key ∈ g.blocks.keys.filter (fun key => counts (g.boundAt? machine key)) ↔
        counts (g.boundAt? machine key) = true := by
    intro g key
    rw [List.mem_filter, and_iff_right_iff_imp, Std.TreeMap.mem_keys,
      Std.TreeMap.mem_iff_isSome_getElem?]
    intro hcounts
    by_contra hnot
    have hnone : g.block? key = none := Option.not_isSome_iff_eq_none.mp hnot
    rw [boundAt?, blockAt, hnone] at hcounts
    cases hcounts
  have hkeys := eq_of_ordered (Std.TreeMap.ordered_keys.filter _)
    (Std.TreeMap.ordered_keys.filter _) fun key => (hmem g' key).trans
      ((congrArg (counts · = true) (h key)).to_iff.trans (hmem g key).symm)
  rw [boundActive?_eq_unionOf?, boundActive?_eq_unionOf?, ← unionOf?_filter_counts, hkeys,
    funext h, unionOf?_filter_counts]

/-! ## A block that has become a leaf -/

theorem activeCount_congr (h : ∀ c, g'.read c = g.read c) : g'.activeCount = g.activeCount :=
  activeCount_eq_of_image Function.injective_id fun c v => by simp [h]

/-- A machine answers the same when a block has become a leaf. Where it was an active tile, the
machine has to find the voxels of the leaf where they lie. -/
theorem boundActive?_densify (h : ∀ state, g.block? key = some (.tile state) →
    state.active = true → machine.Finds k key) :
    (g.densify key).boundActive? machine = g.boundActive? machine := by
  refine boundActive?_congr fun other => ?_
  rw [boundAt?, boundAt?, densify, blockAt_alterBlock]
  split
  · next hother =>
    subst hother
    refine Block.boundActives?_leaf_cells fun state hstate hactive => h state ?_ hactive
    rw [blockAt] at hstate
    cases hstored : g.block? other with
    | some b =>
      rw [hstored] at hstate
      exact congrArg some hstate
    | none =>
      rw [hstored] at hstate
      cases hstate
      cases hactive
  · rfl

/-! ## What a refused write leaves -/

/-- All voxels read as before, and the same is stored, but that one block may have become a leaf. If
it was an active tile, a machine answers the same box around the active voxels where it finds the
voxels of the leaf where they lie. -/
structure Kept (machine : Machine) (addressed : Option Coord) (g g' : Grid V k) : Prop where
  background_eq : g'.background = g.background
  read_eq : ∀ c, g'.read c = g.read c
  activeCount_eq : g'.activeCount = g.activeCount
  block?_eq : ∀ key, g'.block? key = g.block? key ∨
    addressed = some key ∧ ∃ cells, g'.block? key = some (.leaf cells)
  boundActive?_eq : (∀ key state, addressed = some key → g.block? key = some (.tile state) →
    state.active = true → machine.Finds k key) → g'.boundActive? machine = g.boundActive? machine

theorem Kept.refl (machine : Machine) (addressed : Option Coord) (g : Grid V k) :
    Kept machine addressed g g where
  background_eq := rfl
  read_eq _ := rfl
  activeCount_eq := rfl
  block?_eq _ := Or.inl rfl
  boundActive?_eq _ := rfl

theorem Kept.densify (machine : Machine) (g : Grid V k) (key : Coord) :
    Kept machine (some key) g (g.densify key) where
  background_eq := rfl
  read_eq := read_densify g key
  activeCount_eq := activeCount_congr (read_densify g key)
  block?_eq other := by
    rw [Grid.densify, block?_alterBlock]
    split
    · next hother => exact Or.inr ⟨congrArg some hother.symm, _, rfl⟩
    · exact Or.inl rfl
  boundActive?_eq h := boundActive?_densify fun state => h key state rfl

end Grid

/-! ## The main statement -/

namespace Call

variable {t : ValueKind} {k : Nat}

/-- What a call that writes voxels attempts. -/
def attempt? (machine : Machine) : Call → Option (Grid.Attempt t.Value k Unit)
  | set ijk value on => some (Grid.set? machine ijk (t.cast? value) on)
  | setActive ijk on => some (Grid.setActive? machine ijk on)
  | fill box value on => some (Grid.fill? machine box (t.cast? value) on)
  | setAll coords values active =>
    some (Grid.setAll? machine (Grid.coordinates? coords) (t.castMany? values) (Grid.flags? active))
  | _ => none

/-- Why a call that writes voxels is refused, if it is. -/
def refusal? (machine : Machine) (g : Grid t.Value k) (call : Call) : Option Fault :=
  (call.attempt? machine).bind fun op =>
    match op g with
    | .ok _ _ => none
    | .error e _ => some e

/-- The block of the voxel that a call writes, if it writes a single one. -/
def addressed? (k : Nat) : Call → Option Coord
  | set ijk _ _ => (Grid.coordinate? ijk).toOption.map (Box.blockKey k)
  | setActive ijk _ => (Grid.coordinate? ijk).toOption.map (Box.blockKey k)
  | _ => none

/-- The blocks of the voxels that a call writes. -/
def keys (k : Nat) : Call → List Coord
  | fill box _ _ => box.blocks k
  | setAll coords _ _ => ((Grid.coordinates? coords).toOption.getD []).map (Box.blockKey k)
  | call => (call.addressed? k).toList

theorem run_of_refusal? {machine : Machine} {p : PlacedGrid Float t.Value k} {call : Call}
    {e : Fault} (h : call.refusal? machine p.grid = some e) :
    ∃ op g', call.attempt? machine = some op ∧ op p.grid = .error e g' ∧
      call.run machine p = { p with grid := g' } := by
  obtain ⟨op, hop, h⟩ := Option.bind_eq_some_iff.mp h
  have hsettle : call.run machine p = settle op p := by
    cases call <;> cases hop <;> rfl
  cases hresult : op p.grid with
  | ok _ g' =>
    rw [hresult] at h
    cases h
  | error e' g' =>
    rw [hresult] at h
    cases h
    refine ⟨op, g', hop, hresult, ?_⟩
    rw [hsettle, settle, hresult]

end Call

namespace Grid

variable {t : ValueKind} {k : Nat}

/-- **A refused write leaves all voxels as they were**, and their number; what is stored stays too,
but that the block of a single write may have become a leaf. The box around the active voxels stays
where the machine finds the voxels of that block where they lie. The one exception is a write for
which there is no room for a leaf: it loses the block that was to become one. -/
theorem kept_or_loses_of_refused (machine : Machine) (p : PlacedGrid Float t.Value k) (call : Call)
    {e : Fault} (h : call.refusal? machine p.grid = some e) :
    let after := call.run machine p
    after.placement = p.placement ∧
      (Kept machine (call.addressed? k) p.grid after.grid ∨
        Loses machine e (call.keys k) p.grid after.grid) := by
  intro after
  obtain ⟨op, g', hop, hresult, hrun⟩ := Call.run_of_refusal? h
  rw [show after = { p with grid := g' } from hrun]
  refine ⟨rfl, ?_⟩
  cases call with
  | set ijk value on =>
    cases hop
    rcases set?_refused hresult with rfl | ⟨c, hc, hleft⟩
    · exact Or.inl (.refl ..)
    · have haddressed : (Call.set ijk value on).addressed? k = some (Box.blockKey k c) :=
        congrArg (·.toOption.map (Box.blockKey k)) hc
      have hkeys : (Call.set ijk value on).keys k = [Box.blockKey k c] :=
        congrArg Option.toList haddressed
      rw [haddressed, hkeys]
      rcases hleft with rfl | hloses
      · exact Or.inl (.densify ..)
      · exact Or.inr hloses
  | setActive ijk on =>
    cases hop
    rcases setActive?_refused hresult with rfl | ⟨c, hc, hloses⟩
    · exact Or.inl (.refl ..)
    · have hkeys : (Call.setActive ijk on).keys k = [Box.blockKey k c] :=
        congrArg (fun c => (c.toOption.map (Box.blockKey k)).toList) hc
      exact Or.inr (hkeys ▸ hloses)
  | fill box value on =>
    cases hop
    rcases fill?_refused hresult with rfl | hloses
    · exact Or.inl (.refl ..)
    · exact Or.inr hloses
  | setAll coords values active =>
    cases hop
    rcases setAll?_refused hresult with rfl | ⟨cs, hcs, hloses⟩
    · exact Or.inl (.refl ..)
    · have hkeys : (Call.setAll coords values active).keys k = cs.map (Box.blockKey k) :=
        congrArg (fun cs => (cs.toOption.getD []).map (Box.blockKey k)) hcs
      exact Or.inr (hkeys ▸ hloses)
  | prune tolerance => cases hop
  | clear => cases hop
  | copy => cases hop

/-- Two values for one voxel of an active tile, on the machine of words. -/
theorem kept_of_two_values_in_tile :
    let new : PlacedGrid Float ValueKind.int32.Value 1 := ⟨.empty (0 : Int32), .identity⟩
    let p := Call.run .words new (.fill ⟨⟨0, 0, 0⟩, ⟨1, 1, 1⟩⟩ (.leaf (.int 7)) true)
    let call : Call := .set [1, 0, 1] (.node [.leaf (.int 1), .leaf (.int 2)]) true
    let after := call.run .words p
    call.refusal? .words p.grid = some .shapeMismatch ∧
      (∀ c, after.grid.read c = p.grid.read c) ∧ after.grid.activeCount = p.grid.activeCount ∧
      after.grid.boundActive? .words = p.grid.boundActive? .words ∧
      p.grid.leafCount = 0 ∧ after.grid.leafCount = 1 := by
  intro new p call after
  have hrefused : call.refusal? .words p.grid = some .shapeMismatch := rfl
  have hroom : Machine.words.HasRoom ValueKind.int32.Value 1 := ⟨rfl, rfl⟩
  have hwords : (Box.ofBlock 1 ⟨0, 0, 0⟩).FitsWords := fun c hc =>
    (by decide : ∀ c ∈ (Box.ofBlock 1 ⟨0, 0, 0⟩).coords, ∀ n ∈ c.toList,
      Word.isSigned Word.bound64 n = true) c (Box.mem_coords.mpr hc)
  obtain ⟨-, hkept | hloses⟩ := kept_or_loses_of_refused .words p call hrefused
  · refine ⟨hrefused, hkept.read_eq, hkept.activeCount_eq, hkept.boundActive?_eq ?_, rfl, rfl⟩
    rintro key state ⟨⟩ - -
    exact Machine.finds_words hwords
  · exact nomatch hroom.leaf.symm.trans hloses.no_room

/-- The two exceptions on the machine of words. There is no room for a leaf of edge `2 ^ 40`, and
the tile is lost; and the voxels of a leaf beyond the words are not found where the tile was. -/
theorem refused_writes_that_move_voxels :
    let call (x : Int) : Call := .set [x, 0, 0] (.node [.leaf (.int 1), .leaf (.int 2)]) true
    (let new : PlacedGrid Float ValueKind.int32.Value 40 := ⟨.empty (0 : Int32), .identity⟩
      let last := 2 ^ 40 - 1
      let p := Call.run .words new
        (.fill ⟨⟨0, 0, 0⟩, ⟨last, last, last⟩⟩ (.leaf (.int 7)) true)
      (call 0).refusal? .words p.grid = some .arrayTooLarge ∧
        p.grid.read ⟨5, 6, 7⟩ = (⟨7, true⟩ : Voxel Int32) ∧
        ((call 0).run .words p).grid.read ⟨5, 6, 7⟩ = (⟨0, false⟩ : Voxel Int32)) ∧
    let new : PlacedGrid Float ValueKind.int32.Value 1 := ⟨.empty (0 : Int32), .identity⟩
    let far := 2 ^ 63
    let p := Call.run .words new (.fill ⟨⟨far, 0, 0⟩, ⟨far + 1, 1, 1⟩⟩ (.leaf (.int 7)) true)
    (call far).refusal? .words p.grid = some .shapeMismatch ∧
      p.grid.boundActive? .words = .ok (some ⟨⟨far, 0, 0⟩, ⟨far + 1, 1, 1⟩⟩) ∧
      ((call far).run .words p).grid.boundActive? .words =
        .ok (some ⟨⟨-far, 0, 0⟩, ⟨-far + 1, 1, 1⟩⟩) :=
  ⟨⟨rfl, rfl, rfl⟩, rfl, rfl, rfl⟩

end Grid

end SparseVoxel

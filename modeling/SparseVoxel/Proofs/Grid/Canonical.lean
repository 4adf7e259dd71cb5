import SparseVoxel.Proofs.Grid.Invariant

/-!
# Pruned stores are canonical

Pruning without a tolerance leaves a store that is determined by what the grid reads, up to the
equality of values as numbers: `Canonical` says in which form each block is stored. A tidy store has
no tile that says what absence says, and pruning leaves no leaf whose voxels agree, so no form is
left to choose (`Tidy.canonical`). Two canonical stores that read alike hold the same blocks
(`Canonical.alike`).

Equality as numbers is not reflexive where a value is no number. Two grids that read alike have no
such values, which is all that is assumed of them.
-/

namespace SparseVoxel

/-- Blocks stored in one form, whose states are equal as numbers. -/
inductive Block.Alike {V : Type} {k : Nat} [BEq V] : Block V k → Block V k → Prop where
  | tile {state state' : Voxel V} (h : (state == state') = true) :
    Alike (.tile state) (.tile state')
  | leaf {cells cells' : Vector (Voxel V) (blockSize k)}
    (h : ∀ i : Fin (blockSize k), (cells[i] == cells'[i]) = true) :
    Alike (.leaf cells) (.leaf cells')

namespace Grid

variable {V : Type} {k : Nat} [BEq V]

/-- Every voxel of a block reads as an unset one. -/
def UnsetIn (g : Grid V k) (key : Coord) : Prop :=
  ∀ c, Box.blockKey k c = key → g.isUnset (g.read c) = true

/-- The voxels of a block agree in value and activity. -/
def UniformIn (g : Grid V k) (key : Coord) : Prop :=
  ∀ c d, Box.blockKey k c = key → Box.blockKey k d = key → (g.read c == g.read d) = true

/-- A block is absent where all its voxels are unset, a tile where they agree otherwise, and a leaf
where they do not agree. -/
structure Canonical (g : Grid V k) : Prop where
  absent_iff : ∀ key, g.block? key = none ↔ g.UnsetIn key
  tile_iff : ∀ key, (∃ state, g.block? key = some (.tile state)) ↔
    g.UniformIn key ∧ ¬ g.UnsetIn key
  leaf_iff : ∀ key, (∃ cells, g.block? key = some (.leaf cells)) ↔ ¬ g.UniformIn key

/-! ## The forms of a tidy store -/

theorem Tidy.not_unsetIn_of_tile {g : Grid V k} (htidy : g.Tidy) {key : Coord} {state : Voxel V}
    (h : g.block? key = some (.tile state)) : ¬ g.UnsetIn key := by
  intro hunset
  have hlo := hunset _ (Box.blockKey_lo k key)
  rw [read_of_block? h (Box.blockKey_lo k key)] at hlo
  exact Bool.false_ne_true ((htidy.tile_set key state h).symm.trans hlo)

section Forms

variable {g : Grid V k} (hnumbers : ∀ c, (g.read c == g.read c) = true)

include hnumbers

theorem unsetIn_of_absent {key : Coord} (h : g.block? key = none) : g.UnsetIn key := by
  intro c hc
  have hread : g.read c = g.unset := read_of_not_stored (by rw [hc, h]; rfl)
  have hself := hnumbers c
  rw [hread] at hself
  rw [isUnset, hread]
  exact hself

theorem uniformIn_of_tile {key : Coord} {state : Voxel V}
    (h : g.block? key = some (.tile state)) : g.UniformIn key := by
  intro c d hc hd
  have hself := hnumbers c
  rw [read_of_block? h hc] at hself
  rw [read_of_block? h hc, read_of_block? h hd]
  exact hself

variable [PartialEquivBEq V]

omit hnumbers in
theorem UnsetIn.uniformIn {key : Coord} (h : g.UnsetIn key) : g.UniformIn key :=
  fun c d hc hd => PartialEquivBEq.trans (h c hc) (PartialEquivBEq.symm (h d hd))

/-- A tidy store without uniform leaves is canonical: each form excludes what the other two say. -/
theorem Tidy.canonical (htidy : g.Tidy)
    (hleaves : ∀ key cells, g.block? key = some (.leaf cells) → ¬ g.UniformIn key) :
    g.Canonical := by
  have hforms : ∀ key, (g.block? key = none ∧ g.UnsetIn key) ∨
      ((∃ state, g.block? key = some (.tile state)) ∧ g.UniformIn key ∧ ¬ g.UnsetIn key) ∨
      ((∃ cells, g.block? key = some (.leaf cells)) ∧ ¬ g.UniformIn key) := by
    intro key
    cases h : g.block? key with
    | none => exact Or.inl ⟨rfl, unsetIn_of_absent hnumbers h⟩
    | some b =>
      cases b with
      | tile state =>
        exact Or.inr (Or.inl ⟨⟨state, rfl⟩, uniformIn_of_tile hnumbers h,
          htidy.not_unsetIn_of_tile h⟩)
      | leaf cells => exact Or.inr (Or.inr ⟨⟨cells, rfl⟩, hleaves key cells h⟩)
  refine ⟨fun key => ?_, fun key => ?_, fun key => ?_⟩
  · rcases hforms key with ⟨h, hunset⟩ | ⟨⟨state, h⟩, -, hset⟩ | ⟨⟨cells, h⟩, hragged⟩
    · exact iff_of_true h hunset
    · exact iff_of_false (by rw [h]; nofun) hset
    · exact iff_of_false (by rw [h]; nofun) fun hunset => hragged hunset.uniformIn
  · rcases hforms key with ⟨h, hunset⟩ | ⟨h, huniform⟩ | ⟨⟨cells, h⟩, hragged⟩
    · exact iff_of_false (by rw [h]; nofun) fun huniform => huniform.2 hunset
    · exact iff_of_true h huniform
    · exact iff_of_false (by rw [h]; nofun) fun huniform => hragged huniform.1
  · rcases hforms key with ⟨h, hunset⟩ | ⟨⟨state, h⟩, huniform, -⟩ | ⟨h, hragged⟩
    · exact iff_of_false (by rw [h]; nofun) fun hragged => hragged hunset.uniformIn
    · exact iff_of_false (by rw [h]; nofun) fun hragged => hragged huniform
    · exact iff_of_true h hragged

end Forms

/-! ## Two stores that read alike -/

section Alike

variable [PartialEquivBEq V] {g g' : Grid V k}

theorem UnsetIn.congr (hbackground : g.background = g'.background)
    (hread : ∀ c, (g.read c == g'.read c) = true) {key : Coord} (h : g.UnsetIn key) :
    g'.UnsetIn key := by
  intro c hc
  have hunset : g.unset = g'.unset := congrArg (Voxel.mk · false) hbackground
  rw [isUnset, ← hunset]
  exact PartialEquivBEq.trans (PartialEquivBEq.symm (hread c)) (h c hc)

theorem UniformIn.congr (hread : ∀ c, (g.read c == g'.read c) = true) {key : Coord}
    (h : g.UniformIn key) : g'.UniformIn key := by
  intro c d hc hd
  have hleft := PartialEquivBEq.trans (PartialEquivBEq.symm (hread c)) (h c d hc hd)
  exact PartialEquivBEq.trans hleft (hread d)

/-- Canonical stores that read alike hold the same blocks, each in the same form. -/
theorem Canonical.alike (hg : g.Canonical) (hg' : g'.Canonical)
    (hbackground : g.background = g'.background)
    (hread : ∀ c, (g.read c == g'.read c) = true) (key : Coord) :
    Option.Rel Block.Alike (g.block? key) (g'.block? key) := by
  have hread' : ∀ c, (g'.read c == g.read c) = true := fun c => PartialEquivBEq.symm (hread c)
  cases h : g.block? key with
  | none =>
    have hunset := ((hg.absent_iff key).mp h).congr hbackground hread
    rw [(hg'.absent_iff key).mpr hunset]
    exact .none
  | some b =>
    cases b with
    | tile state =>
      obtain ⟨huniform, hset⟩ := (hg.tile_iff key).mp ⟨state, h⟩
      have hset' : ¬ g'.UnsetIn key := fun hunset => hset (hunset.congr hbackground.symm hread')
      obtain ⟨state', h'⟩ := (hg'.tile_iff key).mpr ⟨huniform.congr hread, hset'⟩
      have hstate := hread (Box.ofBlock k key).lo
      rw [read_of_block? h (Box.blockKey_lo k key), read_of_block? h' (Box.blockKey_lo k key)]
        at hstate
      rw [h']
      exact .some (.tile hstate)
    | leaf cells =>
      have hragged := (hg.leaf_iff key).mp ⟨cells, h⟩
      obtain ⟨cells', h'⟩ := (hg'.leaf_iff key).mpr fun huniform => hragged (huniform.congr hread')
      rw [h']
      refine .some (.leaf fun i => ?_)
      obtain ⟨d, hd, hindex⟩ := exists_cellIndex k key i.isLt
      have hcell := hread d
      rw [read_of_block? h hd, read_of_block? h' hd] at hcell
      have hi : cellIndex k d = i := Fin.ext hindex
      simpa only [Block.read, hi] using hcell

end Alike

/-! ## Pruning -/

/-- A leaf that pruning without tolerance leaves has voxels that differ. -/
theorem not_uniformIn_of_prune {K : Type} [Scalar K] [VoxelValue K V] {tolerance : K}
    (htolerance : ¬ Scalar.ofInt 0 < tolerance) {g : Grid V k} {key : Coord}
    {cells : Vector (Voxel V) (blockSize k)}
    (h : (g.prune tolerance).1.block? key = some (.leaf cells)) :
    ¬ (g.prune tolerance).1.UniformIn key := by
  intro huniform
  obtain ⟨hblock, hlevel⟩ := leaf_of_prune h
  have hread : ∀ d, Box.blockKey k d = key → (g.prune tolerance).1.read d = g.read d := by
    intro d hd
    rw [read_of_block? h hd, read_of_block? hblock hd]
  refine Bool.false_ne_true (hlevel.symm.trans (isLevel_iff.mpr fun d hd => ?_))
  have hlo := Box.blockKey_lo k key
  have hequal := huniform d _ hd hlo
  rw [hread d hd, hread _ hlo] at hequal
  obtain ⟨hvalue, hactive⟩ := Voxel.beq_iff.mp hequal
  refine ⟨hactive, ?_⟩
  rw [withinTolerance, if_neg htolerance]
  exact hvalue

section Pruning

variable {K : Type} [Scalar K] [VoxelValue K V] [PartialEquivBEq V] [LawfulTolerance K V]
  {tolerance : K} (htolerance : ¬ Scalar.ofInt 0 < tolerance)
  {g : Grid V k} (hnumbers : ∀ c, (g.read c == g.read c) = true)

include htolerance hnumbers

theorem read_prune_beq (c : Coord) : ((g.prune tolerance).1.read c == g.read c) = true := by
  have hsame := (prune_same tolerance (fun c => Voxel.Same.refl (g.read c)) c).trans
    (prunedView_same htolerance g.read c)
  exact hsame.beq (hnumbers c)

theorem Tidy.canonical_prune (htidy : g.Tidy) : (g.prune tolerance).1.Canonical := by
  have hnumbers' : ∀ c, ((g.prune tolerance).1.read c == (g.prune tolerance).1.read c) = true :=
    fun c => beq_self_of_beq (read_prune_beq htolerance hnumbers c)
  exact (htidy.prune tolerance).canonical hnumbers' fun _ _ h =>
    not_uniformIn_of_prune htolerance h

end Pruning

/-- **Pruning yields a canonical storage.** Two grids that started with one background and read
alike, whatever was called on them, hold the same blocks once they are pruned without tolerance,
and in each of them what a block reads determines the form it is stored in. -/
theorem prune_canonical (t : ValueKind) (k : Nat) (machine machine' : Machine)
    (background : t.Value) (placement placement' : Placement Float) (calls calls' : List Call) :
    let g := (Call.runAll machine calls ⟨(.empty background : Grid t.Value k), placement⟩).grid
    let g' := (Call.runAll machine' calls' ⟨(.empty background : Grid t.Value k), placement'⟩).grid
    (∀ c, (g.read c == g'.read c) = true) →
      let pruned := (g.prune (0.0 : Float)).1
      let pruned' := (g'.prune (0.0 : Float)).1
      pruned.Canonical ∧ pruned'.Canonical ∧
        ∀ key, Option.Rel Block.Alike (pruned.block? key) (pruned'.block? key) := by
  intro g g' hagree pruned pruned'
  have htolerance : ¬ (Scalar.ofInt 0 : Float) < 0.0 := by decide
  obtain ⟨hbackground, htidy⟩ := tidy_runAll (k := k) machine background placement calls
  obtain ⟨hbackground', htidy'⟩ := tidy_runAll (k := k) machine' background placement' calls'
  have hnumbers : ∀ c, (g.read c == g.read c) = true := fun c => beq_self_of_beq (hagree c)
  have hnumbers' : ∀ c, (g'.read c == g'.read c) = true := fun c =>
    beq_self_of_beq (PartialEquivBEq.symm (hagree c))
  have hcanonical : pruned.Canonical := htidy.canonical_prune htolerance hnumbers
  have hcanonical' : pruned'.Canonical := htidy'.canonical_prune htolerance hnumbers'
  refine ⟨hcanonical, hcanonical', hcanonical.alike hcanonical' ?_ fun c => ?_⟩
  · rw [background_prune, background_prune]
    exact hbackground.trans hbackground'.symm
  · have hleft := PartialEquivBEq.trans (read_prune_beq htolerance hnumbers c) (hagree c)
    exact PartialEquivBEq.trans hleft
      (PartialEquivBEq.symm (read_prune_beq htolerance hnumbers' c))

/-- A block of zeros that is filled at once, and one that is filled in two halves with zeros of
different sign. -/
theorem prune_canonical_of_halves :
    let background : ValueKind.double.Value := (1.0 : Float)
    let new : Grid ValueKind.double.Value 1 := .empty background
    let calls : List Call := [.fill ⟨⟨0, 0, 0⟩, ⟨1, 1, 1⟩⟩ (.leaf (.real (-0.0))) true]
    let calls' : List Call := [.fill ⟨⟨0, 0, 0⟩, ⟨1, 1, 0⟩⟩ (.leaf (.real 0.0)) true,
      .fill ⟨⟨0, 0, 1⟩, ⟨1, 1, 1⟩⟩ (.leaf (.real (-0.0))) true]
    let g := (Call.runAll .ideal calls ⟨new, .identity⟩).grid
    let g' := (Call.runAll .ideal calls' ⟨new, .identity⟩).grid
    (∀ c, (g.read c == g'.read c) = true) ∧
      let pruned := (g.prune (0.0 : Float)).1
      let pruned' := (g'.prune (0.0 : Float)).1
      pruned.Canonical ∧ pruned'.Canonical ∧
        ∀ key, Option.Rel Block.Alike (pruned.block? key) (pruned'.block? key) := by
  intro background new calls calls' g g'
  have hnew := Represents.empty (k := 1) background
  have hrep := hnew.runAll (p := ⟨new, .identity⟩) (Machine.hasRoom_ideal _ _) calls
  have hrep' := hnew.runAll (p := ⟨new, .identity⟩) (Machine.hasRoom_ideal _ _) calls'
  have hviews : ∀ c, (Call.effects 1 background calls (fun _ => ⟨background, false⟩) c ==
      Call.effects 1 background calls' (fun _ => ⟨background, false⟩) c) = true := by
    intro c
    show ((if c ∈ Box.mk ⟨0, 0, 0⟩ ⟨1, 1, 1⟩ then Voxel.mk (-0.0 : Float) true
        else ⟨1.0, false⟩) ==
      if c ∈ Box.mk ⟨0, 0, 1⟩ ⟨1, 1, 1⟩ then Voxel.mk (-0.0 : Float) true
        else if c ∈ Box.mk ⟨0, 0, 0⟩ ⟨1, 1, 0⟩ then ⟨0.0, true⟩ else ⟨1.0, false⟩) = true
    have hhalves : c ∈ Box.mk ⟨0, 0, 0⟩ ⟨1, 1, 1⟩ ↔
        c ∈ Box.mk ⟨0, 0, 1⟩ ⟨1, 1, 1⟩ ∨ c ∈ Box.mk ⟨0, 0, 0⟩ ⟨1, 1, 0⟩ := by
      simp only [Membership.mem]
      omega
    by_cases hupper : c ∈ Box.mk ⟨0, 0, 1⟩ ⟨1, 1, 1⟩
    · rw [if_pos (hhalves.mpr (Or.inl hupper)), if_pos hupper]
      decide
    · by_cases hlower : c ∈ Box.mk ⟨0, 0, 0⟩ ⟨1, 1, 0⟩
      · rw [if_pos (hhalves.mpr (Or.inr hlower)), if_neg hupper, if_pos hlower]
        decide
      · rw [if_neg fun h => (hhalves.mp h).elim hupper hlower, if_neg hupper, if_neg hlower]
        decide
  have hagree : ∀ c, (g.read c == g'.read c) = true := by
    intro c
    have hself := beq_self_of_beq (PartialEquivBEq.symm (hviews c))
    have hleft := ((hrep.read_same c).trans (Or.inr (hviews c))).beq hself
    exact PartialEquivBEq.trans hleft (PartialEquivBEq.symm ((hrep'.read_same c).beq hself))
  exact ⟨hagree, prune_canonical .double 1 .ideal .ideal background .identity .identity calls
    calls' hagree⟩

end Grid

end SparseVoxel

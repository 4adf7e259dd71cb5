import Mathlib.Data.Rat.Floor
import SparseVoxel.Proofs.Grid.Tidy
import SparseVoxel.Proofs.Sampler.Reference

/-!
# What pruning stores

Pruning takes leaves away and leaves every other block as it is stored (`block?_prune`). The leaves
that are left do not collapse, so pruning again finds nothing (`prune_eq_self`), and the number it
answers is by how much there are fewer leaves (`snd_prune_add_leafCount`). All this holds for
scalars that are rounded as for exact ones.

In exact arithmetic a leaf collapses if its flags agree and its values are within the tolerance of
the first one, component by component (`withinTolerance_iff`), so no component of any voxel changes
by more than the tolerance. `prune_effect` is the main statement.
-/

namespace SparseVoxel

theorem blockSize_pos (k : Nat) : 0 < blockSize k :=
  Nat.mul_pos (Nat.mul_pos (Box.edge_pos k) (Box.edge_pos k)) (Box.edge_pos k)

namespace Grid

section Storage

variable {K V : Type} {k : Nat} [Scalar K] [BEq V] [VoxelValue K V]

/-! ## Blocks -/

/-- The state in the first cell of a leaf. -/
def firstCell (cells : Vector (Voxel V) (blockSize k)) : Voxel V :=
  cells.get ⟨0, blockSize_pos k⟩

/-- The cells of a leaf agree with the first one, up to a tolerance in their values. -/
def Level (tolerance : K) (cells : Vector (Voxel V) (blockSize k)) : Prop :=
  ∀ v ∈ cells.toList, v.active = (firstCell cells).active ∧
    withinTolerance tolerance v.value (firstCell cells).value = true

theorem blockCollapse?_leaf_eq_some_iff {tolerance : K}
    {cells : Vector (Voxel V) (blockSize k)} {state : Voxel V} :
    blockCollapse? tolerance (.leaf cells) = some state ↔
      Level tolerance cells ∧ state = firstCell cells := by
  have hhead : cells.toList.head? = some (firstCell cells) := by
    rw [List.head?_eq_getElem?]
    simp [firstCell, Vector.get_eq_getElem]
  unfold blockCollapse? collapsed? Level
  cases hcells : cells.toList with
  | nil =>
    rw [hcells] at hhead
    cases hhead
  | cons first rest =>
    rw [hcells] at hhead
    cases hhead
    simp only [hcells, List.all_eq_true, Bool.and_eq_true, beq_iff_eq,
      Option.ite_none_right_eq_some, Option.some.injEq]
    exact and_congr_right' eq_comm

theorem blockCollapse?_leaf_eq_none_iff {tolerance : K}
    {cells : Vector (Voxel V) (blockSize k)} :
    blockCollapse? tolerance (.leaf cells) = none ↔ ¬ Level tolerance cells := by
  rw [Option.eq_none_iff_forall_ne_some]
  constructor
  · exact fun h hlevel => h _ (blockCollapse?_leaf_eq_some_iff.mpr ⟨hlevel, rfl⟩)
  · exact fun h state hstate => h (blockCollapse?_leaf_eq_some_iff.mp hstate).1

theorem mem_collapsible_iff {tolerance : K} {g : Grid V k} {key : Coord} {state : Voxel V} :
    (key, state) ∈ collapsible tolerance g ↔
      ∃ b, g.block? key = some b ∧ blockCollapse? tolerance b = some state := by
  unfold collapsible
  rw [List.mem_filterMap]
  constructor
  · rintro ⟨⟨key', b⟩, hb, h⟩
    obtain ⟨state', hstate, hpair⟩ := Option.map_eq_some_iff.mp h
    cases hpair
    exact ⟨b, mem_toList_blocks.mp hb, hstate⟩
  · rintro ⟨b, hb, hstate⟩
    exact ⟨(key, b), mem_toList_blocks.mpr hb, Option.map_eq_some_iff.mpr ⟨state, hstate, rfl⟩⟩

/-- What pruning stores in the place of a block: a leaf that collapses becomes a tile, or nothing
where the tile would say what absence says. -/
def storePruned (absent : Voxel V) (tolerance : K) (b : Block V k) : Option (Block V k) :=
  match blockCollapse? tolerance b with
  | some state => if (state == absent) = true then none else some (.tile state)
  | none => some b

theorem block?_prune (tolerance : K) (g : Grid V k) (key : Coord) :
    (g.prune tolerance).1.block? key =
      (g.block? key).bind (storePruned g.unset tolerance) := by
  obtain ⟨hset, hkeep⟩ := block?_putTiles (nodup_collapsible tolerance g) g key
  cases hblock : g.block? key with
  | none =>
    have hnone : ∀ state, (key, state) ∉ collapsible tolerance g := by
      intro state hmem
      obtain ⟨b, hb, -⟩ := mem_collapsible_iff.mp hmem
      cases hblock.symm.trans hb
    exact (hkeep hnone).trans hblock
  | some b =>
    rw [Option.bind_some, storePruned]
    cases hcollapse : blockCollapse? tolerance b with
    | some state => exact hset state (mem_collapsible_iff.mpr ⟨b, hblock, hcollapse⟩)
    | none =>
      have hnone : ∀ state, (key, state) ∉ collapsible tolerance g := by
        intro state hmem
        obtain ⟨b', hb, hstate⟩ := mem_collapsible_iff.mp hmem
        cases hblock.symm.trans hb
        cases hcollapse.symm.trans hstate
      exact (hkeep hnone).trans hblock

theorem block?_prune_of_not_leaf (tolerance : K) {g : Grid V k} {key : Coord}
    (hkey : ∀ cells, g.block? key ≠ some (.leaf cells)) :
    (g.prune tolerance).1.block? key = g.block? key := by
  rw [block?_prune]
  cases hblock : g.block? key with
  | none => rfl
  | some b =>
    cases b with
    | tile state => rfl
    | leaf cells => exact absurd hblock (hkey cells)

theorem block?_prune_leaf {tolerance : K} {g : Grid V k} {key : Coord}
    {cells : Vector (Voxel V) (blockSize k)} :
    (g.prune tolerance).1.block? key = some (.leaf cells) ↔
      g.block? key = some (.leaf cells) ∧ blockCollapse? tolerance (.leaf cells) = none := by
  rw [block?_prune, Option.bind_eq_some_iff]
  constructor
  · rintro ⟨b, hb, h⟩
    unfold storePruned at h
    split at h
    · split at h <;> cases h
    · next hnone =>
      cases h
      exact ⟨hb, hnone⟩
  · rintro ⟨hb, hnone⟩
    exact ⟨_, hb, by rw [storePruned, hnone]⟩

/-! ## Leaves -/

/-- Only leaves collapse. -/
theorem mem_keys_collapsible_iff {tolerance : K} {g : Grid V k} {key : Coord} :
    key ∈ (collapsible tolerance g).map Prod.fst ↔
      ∃ cells, g.block? key = some (.leaf cells) ∧
        blockCollapse? tolerance (.leaf cells) ≠ none := by
  rw [List.mem_map]
  constructor
  · rintro ⟨⟨key, state⟩, hmem, rfl⟩
    obtain ⟨b, hb, hstate⟩ := mem_collapsible_iff.mp hmem
    cases b with
    | tile state' => cases hstate
    | leaf cells => exact ⟨cells, hb, Option.ne_none_iff_exists'.mpr ⟨state, hstate⟩⟩
  · rintro ⟨cells, hb, hne⟩
    obtain ⟨state, hstate⟩ := Option.ne_none_iff_exists'.mp hne
    exact ⟨(key, state), mem_collapsible_iff.mpr ⟨_, hb, hstate⟩, rfl⟩

/-- Every leaf collapses or is left. -/
theorem leafKeys_perm (tolerance : K) (g : Grid V k) :
    g.leafKeys.Perm
      ((collapsible tolerance g).map Prod.fst ++ (g.prune tolerance).1.leafKeys) := by
  have hdisjoint : ((collapsible tolerance g).map Prod.fst).Disjoint
      (g.prune tolerance).1.leafKeys := by
    intro key hmem hleft
    obtain ⟨cells, hb, hne⟩ := mem_keys_collapsible_iff.mp hmem
    obtain ⟨cells', hb'⟩ := mem_leafKeys.mp hleft
    obtain ⟨hb', hnone⟩ := block?_prune_leaf.mp hb'
    cases hb.symm.trans hb'
    exact hne hnone
  refine (List.perm_ext_iff_of_nodup (nodup_leafKeys g)
    ((nodup_collapsible tolerance g).append (nodup_leafKeys _) hdisjoint)).mpr fun key => ?_
  rw [List.mem_append, mem_keys_collapsible_iff, mem_leafKeys, mem_leafKeys]
  constructor
  · rintro ⟨cells, hb⟩
    by_cases hnone : blockCollapse? tolerance (.leaf cells) = none
    · exact Or.inr ⟨cells, block?_prune_leaf.mpr ⟨hb, hnone⟩⟩
    · exact Or.inl ⟨cells, hb, hnone⟩
  · rintro (⟨cells, hb, -⟩ | ⟨cells, hb⟩)
    · exact ⟨cells, hb⟩
    · exact ⟨cells, (block?_prune_leaf.mp hb).1⟩

/-- The number that pruning answers is that of the leaves it takes away. -/
theorem snd_prune_add_leafCount (tolerance : K) (g : Grid V k) :
    (g.prune tolerance).2 + (g.prune tolerance).1.leafCount = g.leafCount := by
  have hlength := (leafKeys_perm tolerance g).length_eq
  rw [List.length_append, List.length_map, length_leafKeys, length_leafKeys] at hlength
  exact hlength.symm

/-- Pruning changes nothing where no leaf collapses. -/
theorem prune_eq_self {tolerance : K} {g : Grid V k}
    (h : ∀ key cells, g.block? key = some (.leaf cells) →
      blockCollapse? tolerance (.leaf cells) = none) : g.prune tolerance = (g, 0) := by
  have hnil : collapsible tolerance g = [] := by
    refine List.eq_nil_iff_forall_not_mem.mpr fun ⟨key, state⟩ hmem => ?_
    obtain ⟨b, hb, hstate⟩ := mem_collapsible_iff.mp hmem
    cases b with
    | tile state' => cases hstate
    | leaf cells => cases (h key cells hb).symm.trans hstate
  rw [prune, hnil]
  rfl

end Storage

end Grid

/-! ## Values within a tolerance -/

namespace ValueKind

instance {K : Type} [BEq K] : (kind : ValueKind) → BEq (kind.ValueOver K)
  | .bool => inferInstanceAs (BEq Bool)
  | .int32 => inferInstanceAs (BEq Int32)
  | .int64 => inferInstanceAs (BEq Int64)
  | .single => inferInstanceAs (BEq K)
  | .double => inferInstanceAs (BEq K)
  | .single3 => inferInstanceAs (BEq (Vec3 K))
  | .double3 => inferInstanceAs (BEq (Vec3 K))

instance {K : Type} [BEq K] [LawfulBEq K] : (kind : ValueKind) → LawfulBEq (kind.ValueOver K)
  | .bool => inferInstanceAs (LawfulBEq Bool)
  | .int32 => inferInstanceAs (LawfulBEq Int32)
  | .int64 => inferInstanceAs (LawfulBEq Int64)
  | .single => inferInstanceAs (LawfulBEq K)
  | .double => inferInstanceAs (LawfulBEq K)
  | .single3 => inferInstanceAs (LawfulBEq (Vec3 K))
  | .double3 => inferInstanceAs (LawfulBEq (Vec3 K))

variable {K : Type} [Field K] [LinearOrder K]

/-- Each component of a value is within a tolerance of that of another; truth values are equal. -/
def Within (tolerance : K) : (kind : ValueKind) → kind.ValueOver K → kind.ValueOver K → Prop
  | .bool, a, b => a = b
  | .int32, a, b => |(a.toInt : K) - b.toInt| ≤ tolerance
  | .int64, a, b => |(a.toInt : K) - b.toInt| ≤ tolerance
  | .single, a, b => |a - b| ≤ tolerance
  | .double, a, b => |a - b| ≤ tolerance
  | .single3, a, b => |a.x - b.x| ≤ tolerance ∧ |a.y - b.y| ≤ tolerance ∧ |a.z - b.z| ≤ tolerance
  | .double3, a, b => |a.x - b.x| ≤ tolerance ∧ |a.y - b.y| ≤ tolerance ∧ |a.z - b.z| ≤ tolerance

theorem within_mono {kind : ValueKind} {s t : K} (h : s ≤ t) {a b : kind.ValueOver K}
    (hab : kind.Within s a b) : kind.Within t a b := by
  cases kind with
  | bool => exact hab
  | int32 => exact le_trans hab h
  | int64 => exact le_trans hab h
  | single => exact le_trans hab h
  | double => exact le_trans hab h
  | single3 => exact ⟨hab.1.trans h, hab.2.1.trans h, hab.2.2.trans h⟩
  | double3 => exact ⟨hab.1.trans h, hab.2.1.trans h, hab.2.2.trans h⟩

variable [IsStrictOrderedRing K]

theorem within_zero_iff {kind : ValueKind} {a b : kind.ValueOver K} :
    kind.Within 0 a b ↔ a = b := by
  have hscalar : ∀ x y : K, |x - y| ≤ 0 ↔ x = y := fun x y => by
    rw [abs_nonpos_iff, sub_eq_zero]
  cases kind with
  | bool => exact Iff.rfl
  | int32 =>
    show |(_ : K) - _| ≤ 0 ↔ _
    rw [hscalar, Int.cast_inj, Int32.toInt_inj]
  | int64 =>
    show |(_ : K) - _| ≤ 0 ↔ _
    rw [hscalar, Int.cast_inj, Int64.toInt_inj]
  | single => exact hscalar a b
  | double => exact hscalar a b
  | single3 =>
    show |_| ≤ 0 ∧ |_| ≤ 0 ∧ |_| ≤ 0 ↔ _
    rw [hscalar, hscalar, hscalar, Vec3.ext_iff]
  | double3 =>
    show |_| ≤ 0 ∧ |_| ≤ 0 ∧ |_| ≤ 0 ↔ _
    rw [hscalar, hscalar, hscalar, Vec3.ext_iff]

theorem within_refl {kind : ValueKind} {tolerance : K} (h : 0 ≤ tolerance)
    (a : kind.ValueOver K) : kind.Within tolerance a a :=
  within_mono h (within_zero_iff.mpr rfl)

end ValueKind

namespace Exact

variable {K : Type} [Field K] [LinearOrder K] [FloorRing K] [IsStrictOrderedRing K]

theorem near_iff {tolerance a b : K} (h : 0 ≤ tolerance) :
    Scalar.near (Scalar.ofInt 0) tolerance a b = true ↔ |a - b| ≤ tolerance := by
  rw [Scalar.near_eq_true_iff, Exact.abs_eq, Exact.ofInt_eq, Int.cast_zero, zero_mul, add_zero,
    beq_iff_eq]
  constructor
  · rintro (⟨hle, -⟩ | rfl)
    · exact hle
    · rwa [sub_self, abs_zero]
  · exact fun hle => Or.inl ⟨hle, rfl⟩

end Exact

namespace Grid

variable {K : Type} [Field K] [LinearOrder K] [FloorRing K] [IsStrictOrderedRing K]
variable {kind : ValueKind} {k : Nat} {tolerance : K}

theorem withinTolerance_iff (h : 0 ≤ tolerance) {a b : kind.ValueOver K} :
    withinTolerance tolerance a b = true ↔ kind.Within tolerance a b := by
  unfold withinTolerance
  rw [Exact.ofInt_eq, Int.cast_zero]
  split
  · cases kind with
    | bool => exact beq_iff_eq
    | int32 => exact Exact.near_iff h
    | int64 => exact Exact.near_iff h
    | single => exact Exact.near_iff h
    | double => exact Exact.near_iff h
    | single3 =>
      show (_ && _ && _) = true ↔ _
      rw [Bool.and_eq_true, Bool.and_eq_true, and_assoc]
      exact and_congr (Exact.near_iff h) (and_congr (Exact.near_iff h) (Exact.near_iff h))
    | double3 =>
      show (_ && _ && _) = true ↔ _
      rw [Bool.and_eq_true, Bool.and_eq_true, and_assoc]
      exact and_congr (Exact.near_iff h) (and_congr (Exact.near_iff h) (Exact.near_iff h))
  · next hpos =>
    rw [beq_iff_eq, ← le_antisymm h (not_lt.mp hpos), ValueKind.within_zero_iff]

/-! ## The effect of pruning -/

/-- The flags of a leaf agree, and its values are within a tolerance of the first one. -/
def UniformLeaf (kind : ValueKind) (tolerance : K)
    (cells : Vector (Voxel (kind.ValueOver K)) (blockSize k)) : Prop :=
  ∀ v ∈ cells.toList, v.active = (firstCell cells).active ∧
    kind.Within tolerance v.value (firstCell cells).value

theorem level_iff_uniformLeaf (h : 0 ≤ tolerance)
    {cells : Vector (Voxel (kind.ValueOver K)) (blockSize k)} :
    Level tolerance cells ↔ UniformLeaf kind tolerance cells := by
  simp only [Level, UniformLeaf, withinTolerance_iff h]

/-- What pruning makes of a grid, and the number it answers. -/
structure CollapsesTo (kind : ValueKind) (tolerance : K) (g g' : Grid (kind.ValueOver K) k)
    (count : Nat) : Prop where
  active_eq : ∀ c, (g'.read c).active = (g.read c).active
  value_within : ∀ c, kind.Within tolerance (g.read c).value (g'.read c).value
  /-- Without a tolerance, and where the values are truth values, no voxel changes. -/
  read_eq : tolerance = 0 ∨ kind = .bool → ∀ c, g'.read c = g.read c
  block_kept : ∀ key, (∀ cells, g.block? key ≠ some (.leaf cells)) →
    g'.block? key = g.block? key
  leaf_kept : ∀ key cells, g.block? key = some (.leaf cells) →
    ¬ UniformLeaf kind tolerance cells → g'.block? key = some (.leaf cells)
  leaf_collapses : ∀ key cells, g.block? key = some (.leaf cells) →
    UniformLeaf kind tolerance cells →
      g'.block? key =
        if g.isUnset (firstCell cells) = true then none else some (.tile (firstCell cells))
  count_add : count + g'.leafCount = g.leafCount

section Uniform

variable (h : 0 ≤ tolerance) {g : Grid (kind.ValueOver K) k} {key : Coord}

include h

theorem block?_prune_of_not_uniform {cells : Vector (Voxel (kind.ValueOver K)) (blockSize k)}
    (hblock : g.block? key = some (.leaf cells)) (hnot : ¬ UniformLeaf kind tolerance cells) :
    (g.prune tolerance).1.block? key = some (.leaf cells) := by
  rw [← level_iff_uniformLeaf h, ← blockCollapse?_leaf_eq_none_iff] at hnot
  exact block?_prune_leaf.mpr ⟨hblock, hnot⟩

theorem block?_prune_of_uniform {cells : Vector (Voxel (kind.ValueOver K)) (blockSize k)}
    (hblock : g.block? key = some (.leaf cells)) (huniform : UniformLeaf kind tolerance cells) :
    (g.prune tolerance).1.block? key =
      if g.isUnset (firstCell cells) = true then none else some (.tile (firstCell cells)) := by
  have hsome := blockCollapse?_leaf_eq_some_iff.mpr ⟨(level_iff_uniformLeaf h).mpr huniform, rfl⟩
  rw [block?_prune, hblock, Option.bind_some, storePruned, hsome]
  rfl

/-- A voxel of a leaf that collapses gets the state of the first cell, and others are kept. -/
theorem read_prune (c : Coord) :
    (∃ cells : Vector _ (blockSize k), UniformLeaf kind tolerance cells ∧
      g.read c ∈ cells.toList ∧ (g.prune tolerance).1.read c = firstCell cells) ∨
    (g.prune tolerance).1.read c = g.read c := by
  have hkept : (g.prune tolerance).1.block? (Box.blockKey k c) = g.block? (Box.blockKey k c) →
      (g.prune tolerance).1.read c = g.read c := by
    intro hblock
    rw [read, blockAt, hblock, unset, background_prune]
    rfl
  by_cases hleaf : ∃ cells, g.block? (Box.blockKey k c) = some (.leaf cells)
  · obtain ⟨cells, hblock⟩ := hleaf
    by_cases huniform : UniformLeaf kind tolerance cells
    · refine Or.inl ⟨cells, huniform, ?_, ?_⟩
      · exact (mem_cells_iff (Box.blockKey k c)).mpr ⟨c, rfl, (read_of_block? hblock rfl).symm⟩
      · have hpruned := block?_prune_of_uniform h hblock huniform
        split at hpruned
        · next hunset =>
          rw [read_of_not_stored (by rw [hpruned]; rfl), unset, background_prune]
          exact (eq_of_beq hunset).symm
        · rw [read_of_block? hpruned rfl]
          rfl
    · exact Or.inr (hkept ((block?_prune_of_not_uniform h hblock huniform).trans hblock.symm))
  · exact Or.inr (hkept (block?_prune_of_not_leaf _ fun cells hblock => hleaf ⟨cells, hblock⟩))

end Uniform

theorem collapsesTo_prune (kind : ValueKind) (h : 0 ≤ tolerance) (g : Grid (kind.ValueOver K) k) :
    CollapsesTo kind tolerance g (g.prune tolerance).1 (g.prune tolerance).2 := by
  have hactive : ∀ c, ((g.prune tolerance).1.read c).active = (g.read c).active := by
    intro c
    rcases read_prune h (g := g) c with ⟨cells, huniform, hmem, hread⟩ | hread
    · rw [hread, (huniform _ hmem).1]
    · rw [hread]
  have hvalue : ∀ c, kind.Within tolerance (g.read c).value
      ((g.prune tolerance).1.read c).value := by
    intro c
    rcases read_prune h (g := g) c with ⟨cells, huniform, hmem, hread⟩ | hread
    · rw [hread]
      exact (huniform _ hmem).2
    · rw [hread]
      exact ValueKind.within_refl h _
  have hexactly : tolerance = 0 ∨ kind = .bool → ∀ c,
      ((g.prune tolerance).1.read c).value = (g.read c).value := by
    intro hexact c
    have hc := hvalue c
    rcases hexact with rfl | rfl
    · exact (ValueKind.within_zero_iff.mp hc).symm
    · exact hc.symm
  exact {
    active_eq := hactive
    value_within := hvalue
    read_eq := fun hexact c => congrArg₂ Voxel.mk (hexactly hexact c) (hactive c)
    block_kept := fun key => block?_prune_of_not_leaf tolerance
    leaf_kept := fun key cells => block?_prune_of_not_uniform h
    leaf_collapses := fun key cells => block?_prune_of_uniform h
    count_add := snd_prune_add_leafCount tolerance g }

/-- **The effect of pruning.** In exact arithmetic pruning keeps the activity of every voxel and
changes no component of a value by more than the tolerance. It takes away the leaves whose flags
agree and whose values are within the tolerance of the first, answers their number, and leaves the
other blocks as they are stored. Pruning again finds nothing. -/
theorem prune_effect (kind : ValueKind) (g : Grid (kind.ValueOver K) k) (h : 0 ≤ tolerance) :
    CollapsesTo kind tolerance g (g.prune tolerance).1 (g.prune tolerance).2 ∧
      (g.prune tolerance).1.prune tolerance = ((g.prune tolerance).1, 0) ∧
      (g.prune tolerance).1.prune (0 : K) = ((g.prune tolerance).1, 0) := by
  refine ⟨collapsesTo_prune kind h g, prune_eq_self fun key cells hblock => ?_,
    prune_eq_self fun key cells hblock => ?_⟩
  · exact (block?_prune_leaf.mp hblock).2
  · have hlevel := blockCollapse?_leaf_eq_none_iff.mp (block?_prune_leaf.mp hblock).2
    rw [level_iff_uniformLeaf h] at hlevel
    rw [blockCollapse?_leaf_eq_none_iff, level_iff_uniformLeaf le_rfl]
    exact fun hzero => hlevel fun v hv =>
      ⟨(hzero v hv).1, ValueKind.within_mono h (hzero v hv).2⟩

/-- A tile and two leaves of rational numbers, one of which is uniform up to one half. -/
theorem prune_effect_of_two_leaves :
    let g : Grid (ValueKind.double.ValueOver ℚ) 1 :=
      (((Grid.empty 0).fill ⟨⟨0, 0, 0⟩, ⟨3, 1, 1⟩⟩ ⟨1, true⟩).write ⟨0, 1, 0⟩ ⟨5 / 4, true⟩).write
        ⟨-1, 0, 0⟩ ⟨1 / 4, true⟩
    let pruned := (g.prune (1 / 2 : ℚ)).1
    (0 : ℚ) ≤ 1 / 2 ∧ CollapsesTo .double (1 / 2 : ℚ) g pruned 1 ∧
      pruned.read ⟨0, 1, 0⟩ = ⟨1, true⟩ ∧
      pruned.prune (1 / 2 : ℚ) = (pruned, 0) ∧ pruned.prune (0 : ℚ) = (pruned, 0) := by
  intro g pruned
  have hhalf : (0 : ℚ) ≤ 1 / 2 := by norm_num
  have hcount : (g.prune (1 / 2 : ℚ)).2 = 1 := by decide +kernel
  have heffect := prune_effect .double g hhalf
  rw [hcount] at heffect
  exact ⟨hhalf, heffect.1, by decide +kernel, heffect.2⟩

end Grid

end SparseVoxel

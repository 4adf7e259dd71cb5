import SparseVoxel.Grid.Active
import SparseVoxel.Proofs.Grid.Stored
import SparseVoxel.Proofs.Outcome

/-!
# The box around the active voxels

`Box.Encloses` says of a box that it is the least one that holds all voxels with a property, or of
no box that there is no such voxel. Boxes around two sets of voxels give the box around both
(`Encloses.union?`), so what goes for a list of boxes follows by induction over the list
(`Encloses.foldl`), and `Grid.activeBox?` encloses the active voxels (`encloses_activeBox?`). Since
there is only one such box (`Encloses.unique`), it does not depend on how the voxels are stored
(`activeBox?_congr`). A machine may find voxels where they do not lie, but it does not miss that
there are some (`isSome_of_boundActive?`).
-/

namespace SparseVoxel

namespace Box

/-- The least box that holds all voxels with a property, if there are any. -/
def Encloses (found : Option Box) (P : Coord → Prop) : Prop :=
  match found with
  | none => ∀ c, ¬ P c
  | some b =>
    (∀ c, P c → c ∈ b) ∧ ∀ whole : Box, (∀ c, P c → c ∈ whole) → b.lo ∈ whole ∧ b.hi ∈ whole

theorem mem_union_left {a b : Box} {c : Coord} (h : c ∈ a) : c ∈ a.union b := by
  obtain ⟨hx, hy, hz⟩ := h
  refine ⟨?_, ?_, ?_⟩ <;> simp only [union, Vec3.zipWith] <;> omega

theorem mem_union_right {a b : Box} {c : Coord} (h : c ∈ b) : c ∈ a.union b := by
  obtain ⟨hx, hy, hz⟩ := h
  refine ⟨?_, ?_, ?_⟩ <;> simp only [union, Vec3.zipWith] <;> omega

/-- The corners of the box around two boxes lie in every box that holds the corners of both. -/
theorem corners_union_mem {a b whole : Box} (ha : a.lo ∈ whole ∧ a.hi ∈ whole)
    (hb : b.lo ∈ whole ∧ b.hi ∈ whole) : (a.union b).lo ∈ whole ∧ (a.union b).hi ∈ whole := by
  obtain ⟨⟨hx, hy, hz⟩, hx', hy', hz'⟩ := ha
  obtain ⟨⟨kx, ky, kz⟩, kx', ky', kz'⟩ := hb
  constructor
  · refine ⟨?_, ?_, ?_⟩ <;> simp only [union, Vec3.zipWith] <;> omega
  · refine ⟨?_, ?_, ?_⟩ <;> simp only [union, Vec3.zipWith] <;> omega

theorem mem_single_iff {c d : Coord} : d ∈ Box.mk c c ↔ d = c := by
  constructor
  · rintro ⟨hx, hy, hz⟩
    simp only at hx hy hz
    exact Vec3.ext (by omega) (by omega) (by omega)
  · rintro rfl
    exact ⟨⟨Int.le_refl _, Int.le_refl _⟩, ⟨Int.le_refl _, Int.le_refl _⟩, Int.le_refl _,
      Int.le_refl _⟩

namespace Encloses

variable {found found' : Option Box} {P Q : Coord → Prop}

theorem congr (h : Encloses found P) (hiff : ∀ c, P c ↔ Q c) : Encloses found Q := by
  have hsame : P = Q := funext fun c => propext (hiff c)
  exact hsame ▸ h

theorem nothing : Encloses none fun _ => False :=
  fun _ => id

theorem box {b : Box} (h : b.Nonempty) : Encloses (some b) (· ∈ b) :=
  ⟨fun _ => id, fun _ hwhole => ⟨hwhole _ (lo_mem h), hwhole _ (hi_mem h)⟩⟩

theorem exists_mem (h : Encloses found P) {c : Coord} (hc : P c) : ∃ b, found = some b ∧ c ∈ b := by
  cases found with
  | none => exact absurd hc (h c)
  | some b => exact ⟨b, rfl, h.1 c hc⟩

/-- Some voxel has the property if there is a box. -/
theorem exists_voxel {b : Box} (h : Encloses (some b) P) : ∃ c, P c := by
  by_contra hnone
  -- Every box would hold the corners, and an empty one does not.
  obtain ⟨⟨hx, -⟩, -⟩ := h.2 ⟨⟨1, 0, 0⟩, ⟨0, 0, 0⟩⟩ fun c hc => absurd ⟨c, hc⟩ hnone
  simp only at hx
  omega

theorem union? (h : Encloses found P) (h' : Encloses found' Q) :
    Encloses (Box.union? found found') fun c => P c ∨ Q c := by
  cases found with
  | none => exact h'.congr fun c => (or_iff_right (h c)).symm
  | some a =>
    cases found' with
    | none => exact h.congr fun c => (or_iff_left (h' c)).symm
    | some b =>
      refine ⟨fun c hc => ?_, fun whole hwhole => ?_⟩
      · exact hc.elim (fun hc => mem_union_left (h.1 c hc)) fun hc => mem_union_right (h'.1 c hc)
      · exact corners_union_mem (h.2 whole fun c hc => hwhole c (Or.inl hc))
          (h'.2 whole fun c hc => hwhole c (Or.inr hc))

theorem foldl {α : Type} {f : α → Option Box} {R : α → Coord → Prop} {as : List α}
    (hf : ∀ a ∈ as, Encloses (f a) (R a)) (h : Encloses found P) :
    Encloses (as.foldl (fun found a => Box.union? found (f a)) found)
      fun c => P c ∨ ∃ a ∈ as, R a c := by
  induction as generalizing found P with
  | nil => exact h.congr fun c => by simp
  | cons a as ih =>
    obtain ⟨ha, has⟩ := List.forall_mem_cons.mp hf
    refine (ih has (h.union? ha)).congr fun c => ?_
    rw [List.exists_mem_cons_iff, or_assoc]

/-- There is only one least box. -/
theorem unique (h : Encloses found P) (h' : Encloses found' P) : found = found' := by
  cases found with
  | none =>
    cases found' with
    | none => rfl
    | some b =>
      obtain ⟨c, hc⟩ := h'.exists_voxel
      exact absurd hc (h c)
  | some a =>
    cases found' with
    | none =>
      obtain ⟨c, hc⟩ := h.exists_voxel
      exact absurd hc (h' c)
    | some b =>
      obtain ⟨⟨hx, hy, hz⟩, kx, ky, kz⟩ := h.2 b h'.1
      obtain ⟨⟨hx', hy', hz'⟩, kx', ky', kz'⟩ := h'.2 a h.1
      refine congrArg some (Box.ext ?_ ?_)
      · exact Vec3.ext (by omega) (by omega) (by omega)
      · exact Vec3.ext (by omega) (by omega) (by omega)

end Encloses

/-- The tightest box around points is the least one that holds them. -/
theorem encloses_ofPoints? (ps : List Coord) : Encloses (ofPoints? ps) (· ∈ ps) := by
  have hfold : ∀ (ps : List Coord) (b : Box),
      some (ps.foldl (fun b c => b.union ⟨c, c⟩) b) =
        ps.foldl (fun found c => Box.union? found (some ⟨c, c⟩)) (some b) := by
    intro ps
    induction ps with
    | nil => exact fun _ => rfl
    | cons p ps ih => exact fun b => ih _
  have hpoints : ofPoints? ps =
      ps.foldl (fun found c => Box.union? found (some ⟨c, c⟩)) none := by
    cases ps with
    | nil => rfl
    | cons p ps => exact hfold ps ⟨p, p⟩
  have hsingle : ∀ c ∈ ps, Encloses (some ⟨c, c⟩) (· = c) := fun c _ =>
    (Encloses.box (nonempty_of_mem (mem_single_iff.mpr (rfl : c = c)))).congr
      fun _ => mem_single_iff
  rw [hpoints]
  refine (Encloses.foldl hsingle .nothing).congr fun c => ?_
  simp

end Box

namespace Block

variable {V : Type} {k : Nat}

theorem encloses_activeBox? (b : Block V k) (key : Coord) :
    Box.Encloses (b.activeBox? key) fun c => Box.blockKey k c = key ∧ (b.read c).active = true := by
  cases b with
  | tile state =>
    by_cases hactive : state.active = true
    · rw [activeBox?, if_pos hactive]
      refine (Box.Encloses.box (Box.nonempty_ofBlock k key)).congr fun c => ?_
      rw [Box.mem_ofBlock]
      exact (and_iff_left hactive).symm
    · rw [activeBox?, if_neg hactive]
      exact fun c hc => hactive hc.2
  | leaf cells =>
    refine (Box.encloses_ofPoints? _).congr fun c => ?_
    simp only [actives, List.mem_map, List.mem_filterMap, Box.mem_coords, Box.mem_ofBlock]
    constructor
    · rintro ⟨p, ⟨d, hd, hp⟩, rfl⟩
      split at hp
      · next hactive =>
        cases hp
        exact ⟨hd, hactive⟩
      · cases hp
    · rintro ⟨hkey, hactive⟩
      exact ⟨(c, ((leaf cells).read c).value), ⟨c, hkey, if_pos hactive⟩, rfl⟩

/-- A machine finds active voxels in a block that has some, wherever it finds them. -/
theorem isSome_of_boundActives? {machine : Machine} {key : Coord} {b : Block V k}
    {found : Option Box} (h : b.boundActives? machine key = .ok found) :
    found.isSome = (b.activeBox? key).isSome := by
  unfold boundActives? at h
  split at h
  · next hbox =>
    obtain ⟨place, -, h⟩ := bind_eq_ok.mp h
    cases h
    rw [hbox]
    rfl
  · cases h
    rfl

end Block

namespace Grid

variable {V : Type} {k : Nat}

/-- A machine finds active voxels in a grid that has some, wherever it finds them. -/
theorem isSome_of_boundActive? {machine : Machine} {g : Grid V k} {found : Option Box}
    (h : g.boundActive? machine = .ok found) : found.isSome = g.activeBox?.isSome := by
  have hunion : ∀ a b : Option Box, (Box.union? a b).isSome = (a.isSome || b.isSome) := by
    rintro (_ | a) (_ | b) <;> rfl
  have hfold : ∀ (blocks : List (Coord × Block V k)) (a b : Option Box), a.isSome = b.isSome →
      blocks.foldlM (fun found p => do
        return Box.union? found (← p.2.boundActives? machine p.1)) a = .ok found →
      found.isSome = (blocks.foldl (fun found p =>
        Box.union? found (p.2.activeBox? p.1)) b).isSome := by
    intro blocks
    induction blocks with
    | nil =>
      intro a b hab h
      cases h
      exact hab
    | cons p blocks ih =>
      intro a b hab h
      rw [List.foldlM_cons] at h
      obtain ⟨a', hfirst, hrest⟩ := bind_eq_ok.mp h
      obtain ⟨found', hfound, hfirst⟩ := bind_eq_ok.mp hfirst
      cases hfirst
      refine ih _ _ ?_ hrest
      rw [hunion, hunion, hab, Block.isSome_of_boundActives? hfound]
  exact hfold _ none none rfl h

/-- The box around the active voxels is the least one that holds them. -/
theorem encloses_activeBox? (g : Grid V k) :
    Box.Encloses g.activeBox? fun c => (g.read c).active = true := by
  refine (Box.Encloses.foldl (fun p _ => Block.encloses_activeBox? p.2 p.1) .nothing).congr
    fun c => ?_
  rw [false_or]
  constructor
  · rintro ⟨⟨key, b⟩, hmem, hkey, hactive⟩
    rw [read_of_block? (mem_toList_blocks.mp hmem) hkey]
    exact hactive
  · intro hactive
    have hstored : (g.block? (Box.blockKey k c)).isSome = true := by
      by_contra hnot
      rw [read_of_not_stored (Bool.eq_false_iff.mpr hnot)] at hactive
      cases hactive
    obtain ⟨b, hb⟩ := Option.isSome_iff_exists.mp hstored
    rw [read_of_block? hb rfl] at hactive
    exact ⟨(Box.blockKey k c, b), mem_toList_blocks.mpr hb, rfl, hactive⟩

theorem mem_activeBox? {g : Grid V k} {c : Coord} (h : (g.read c).active = true) :
    ∃ b, g.activeBox? = some b ∧ c ∈ b :=
  g.encloses_activeBox?.exists_mem h

/-- Grids that read the same have the same box around their active voxels, however they are
stored. -/
theorem activeBox?_congr {k' : Nat} {g : Grid V k} {g' : Grid V k'}
    (h : ∀ c, g'.read c = g.read c) : g'.activeBox? = g.activeBox? :=
  (g'.encloses_activeBox?.congr fun c => by rw [h]).unique g.encloses_activeBox?

end Grid

end SparseVoxel

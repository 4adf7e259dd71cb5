import SparseVoxel.Vec3

/-!
# Boxes of voxels

A `Box` has a least and a greatest corner, both inclusive; it is empty when they are out of order
on some axis. `mem_coords` says that the enumeration of a box lists exactly its voxels.
-/

namespace SparseVoxel

/-- An axis-aligned box of coordinates, both corners inclusive. -/
@[ext]
structure Box where
  lo : Coord
  hi : Coord
deriving DecidableEq, Repr

namespace Box

/-- A coordinate lies in a box when it does so on each axis. -/
instance : Membership Coord Box where
  mem b c := (b.lo.x ≤ c.x ∧ c.x ≤ b.hi.x) ∧ (b.lo.y ≤ c.y ∧ c.y ≤ b.hi.y) ∧
    (b.lo.z ≤ c.z ∧ c.z ≤ b.hi.z)

instance (c : Coord) (b : Box) : Decidable (c ∈ b) :=
  inferInstanceAs (Decidable ((b.lo.x ≤ c.x ∧ c.x ≤ b.hi.x) ∧ (b.lo.y ≤ c.y ∧ c.y ≤ b.hi.y) ∧
    (b.lo.z ≤ c.z ∧ c.z ≤ b.hi.z)))

/-- Whether the corners are in order on every axis. -/
def Nonempty (b : Box) : Prop :=
  b.lo.x ≤ b.hi.x ∧ b.lo.y ≤ b.hi.y ∧ b.lo.z ≤ b.hi.z

instance (b : Box) : Decidable b.Nonempty :=
  inferInstanceAs (Decidable (b.lo.x ≤ b.hi.x ∧ b.lo.y ≤ b.hi.y ∧ b.lo.z ≤ b.hi.z))

/-- Whether the box holds no voxel. -/
def isEmpty (b : Box) : Bool :=
  !decide b.Nonempty

theorem isEmpty_eq_false {b : Box} : b.isEmpty = false ↔ b.Nonempty := by
  rw [isEmpty, Bool.not_eq_false', decide_eq_true_iff]

/-- A box that holds a coordinate has its corners in order. -/
theorem nonempty_of_mem {b : Box} {c : Coord} (h : c ∈ b) : b.Nonempty := by
  obtain ⟨hx, hy, hz⟩ := h
  exact ⟨by omega, by omega, by omega⟩

/-- The least corner of a box that is not empty lies in it. -/
theorem lo_mem {b : Box} (h : b.Nonempty) : b.lo ∈ b :=
  ⟨⟨Int.le_refl _, h.1⟩, ⟨Int.le_refl _, h.2.1⟩, ⟨Int.le_refl _, h.2.2⟩⟩

/-- The number of voxels along each axis. -/
def dim (b : Box) : Vec3 Nat :=
  (b.hi.zipWith (fun h l => (h - l + 1).toNat) b.lo)

/-- The number of voxels. -/
def volume (b : Box) : Nat :=
  b.dim.x * b.dim.y * b.dim.z

/-- The box with `n` more voxels on each side. -/
def expand (b : Box) (n : Int) : Box :=
  ⟨b.lo.map (· - n), b.hi.map (· + n)⟩

/-- Expanding by more leaves no voxel out. -/
theorem mem_expand_of_le {b : Box} {c : Coord} {n m : Int} (hle : n ≤ m) (h : c ∈ b.expand n) :
    c ∈ b.expand m := by
  obtain ⟨hx, hy, hz⟩ := h
  simp only [expand, Vec3.map] at hx hy hz
  refine ⟨⟨?_, ?_⟩, ⟨?_, ?_⟩, ?_, ?_⟩ <;> simp only [expand, Vec3.map] <;> omega

theorem mem_expand {b : Box} {c : Coord} {n : Int} (hn : 0 ≤ n) (h : c ∈ b) : c ∈ b.expand n := by
  refine mem_expand_of_le hn ?_
  obtain ⟨hx, hy, hz⟩ := h
  refine ⟨⟨?_, ?_⟩, ⟨?_, ?_⟩, ?_, ?_⟩ <;> simp only [expand, Vec3.map] <;> omega

/-- Whether a list of three coordinates lies in the box. The axes are taken in order, and only
as long as the answer is open does the length of the list matter. -/
def contains? (b : Box) (ijk : List Int) : Except Fault Bool :=
  go (b.lo.toList.zip b.hi.toList) ijk
where
  go : List (Int × Int) → List Int → Except Fault Bool
    | [], [] => .ok true
    | (l, h) :: bounds, c :: rest => if l ≤ c ∧ c ≤ h then go bounds rest else .ok false
    | _, _ => .error .shapeMismatch

/-- Whether both corners of another box lie in this one. -/
def containsBox (b other : Box) : Bool :=
  decide (other.lo ∈ b) && decide (other.hi ∈ b)

/-- The larger of the least corners and the smaller of the greatest. -/
def meet (a b : Box) : Box :=
  ⟨a.lo.zipWith max b.lo, a.hi.zipWith min b.hi⟩

theorem mem_meet {a b : Box} {c : Coord} : c ∈ a.meet b ↔ c ∈ a ∧ c ∈ b := by
  constructor
  · rintro ⟨hx, hy, hz⟩
    simp only [meet, Vec3.zipWith] at hx hy hz
    exact ⟨⟨by omega, by omega, by omega⟩, ⟨by omega, by omega, by omega⟩⟩
  · rintro ⟨⟨hx, hy, hz⟩, ⟨hx', hy', hz'⟩⟩
    refine ⟨?_, ?_, ?_⟩ <;> simp only [meet, Vec3.zipWith] <;> omega

/-- The common part of two boxes, if they have one. -/
def inter? (a b : Box) : Option Box :=
  let m := a.meet b
  if m.isEmpty then none else some m

/-- The least box around two corners each. -/
def union (a b : Box) : Box :=
  ⟨a.lo.zipWith min b.lo, a.hi.zipWith max b.hi⟩

/-- The integers from `lo` to `hi` in ascending order. -/
def range (lo hi : Int) : List Int :=
  (List.range (hi - lo + 1).toNat).map fun (n : Nat) => lo + n

/-- Every voxel of the box, the z axis running fastest. -/
def coords (b : Box) : List Coord :=
  (range b.lo.x b.hi.x).flatMap fun x =>
    (range b.lo.y b.hi.y).flatMap fun y =>
      (range b.lo.z b.hi.z).map fun z => ⟨x, y, z⟩

theorem mem_range {lo hi n : Int} : n ∈ range lo hi ↔ lo ≤ n ∧ n ≤ hi := by
  simp only [range, List.mem_map, List.mem_range]
  constructor
  · rintro ⟨m, hm, rfl⟩
    omega
  · rintro ⟨hlo, hhi⟩
    exact ⟨(n - lo).toNat, by omega, by omega⟩

/-- The enumeration lists exactly the voxels of the box. -/
theorem mem_coords {b : Box} {c : Coord} : c ∈ b.coords ↔ c ∈ b := by
  obtain ⟨x, y, z⟩ := c
  simp only [coords, List.mem_flatMap, List.mem_map, mem_range]
  constructor
  · rintro ⟨x', hx, y', hy, z', hz, h⟩
    cases h
    exact ⟨hx, hy, hz⟩
  · rintro ⟨hx, hy, hz⟩
    exact ⟨x, hx, y, hy, z, hz, rfl⟩

/-- The tightest box around points, if there are any. -/
def ofPoints? : List Coord → Option Box
  | [] => none
  | p :: ps => some (ps.foldl (fun b c => b.union ⟨c, c⟩) ⟨p, p⟩)

end Box

end SparseVoxel

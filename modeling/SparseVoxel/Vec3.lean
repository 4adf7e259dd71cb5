import Std.Data.TreeMap
import SparseVoxel.Scalar.Basic

/-!
# Triples

`Vec3 α` holds one entry per axis. Triples of integers are the coordinates of voxels; they are
ordered lexicographically, the x axis first, and this order is total and agrees with equality.
-/

namespace SparseVoxel

/-- One of the three principal axes. -/
inductive Axis where
  | x
  | y
  | z
deriving DecidableEq, Repr

theorem Axis.forall_iff {P : Axis → Prop} : (∀ axis, P axis) ↔ P .x ∧ P .y ∧ P .z := by
  constructor
  · exact fun h => ⟨h .x, h .y, h .z⟩
  · rintro ⟨hx, hy, hz⟩ axis
    cases axis
    · exact hx
    · exact hy
    · exact hz

/-- One entry per axis. -/
@[ext]
structure Vec3 (α : Type) where
  x : α
  y : α
  z : α
deriving DecidableEq, BEq, ReflBEq, LawfulBEq, Repr, Inhabited

namespace Vec3

variable {α β γ : Type}

/-- The entry of an axis. -/
def get (v : Vec3 α) : Axis → α
  | .x => v.x
  | .y => v.y
  | .z => v.z

/-- The triple with one entry replaced. -/
def set (v : Vec3 α) (axis : Axis) (a : α) : Vec3 α :=
  match axis with
  | .x => { v with x := a }
  | .y => { v with y := a }
  | .z => { v with z := a }

/-- Three equal entries. -/
def replicate (a : α) : Vec3 α :=
  ⟨a, a, a⟩

/-- Each entry replaced by its image. -/
def map (f : α → β) (v : Vec3 α) : Vec3 β :=
  ⟨f v.x, f v.y, f v.z⟩

/-- Entries of two triples combined axis by axis. -/
def zipWith (f : α → β → γ) (v : Vec3 α) (w : Vec3 β) : Vec3 γ :=
  ⟨f v.x w.x, f v.y w.y, f v.z w.z⟩

/-- The entries, the x axis first. -/
def toList (v : Vec3 α) : List α :=
  [v.x, v.y, v.z]

/-- The triple of a list of three. -/
def ofList? : List α → Option (Vec3 α)
  | [x, y, z] => some ⟨x, y, z⟩
  | _ => none

/-- Whether a test holds on every axis. -/
def all (p : α → Bool) (v : Vec3 α) : Bool :=
  p v.x && p v.y && p v.z

/-- Whether a test holds on some axis. -/
def any (p : α → Bool) (v : Vec3 α) : Bool :=
  p v.x || p v.y || p v.z

/-- Each entry replaced by the outcome of a step that may fail, the x axis first. -/
def mapM {m : Type → Type} [Monad m] (f : α → m β) (v : Vec3 α) : m (Vec3 β) := do
  let x ← f v.x
  let y ← f v.y
  let z ← f v.z
  return ⟨x, y, z⟩

/-- A step that succeeds on every entry succeeds on the triple. -/
theorem mapM_eq_ok {ε : Type} {f : α → Except ε β} {g : α → β} {v : Vec3 α}
    (h : ∀ axis, f (v.get axis) = .ok (g (v.get axis))) : v.mapM f = .ok (v.map g) := by
  have hx : f v.x = .ok (g v.x) := h .x
  have hy : f v.y = .ok (g v.y) := h .y
  have hz : f v.z = .ok (g v.z) := h .z
  simp only [mapM, hx, hy, hz]
  rfl

instance [Add α] : Add (Vec3 α) := ⟨zipWith (· + ·)⟩

instance [Sub α] : Sub (Vec3 α) := ⟨zipWith (· - ·)⟩

instance [Neg α] : Neg (Vec3 α) := ⟨map (- ·)⟩

@[simp] theorem add_x [Add α] (v w : Vec3 α) : (v + w).x = v.x + w.x := rfl

@[simp] theorem add_y [Add α] (v w : Vec3 α) : (v + w).y = v.y + w.y := rfl

@[simp] theorem add_z [Add α] (v w : Vec3 α) : (v + w).z = v.z + w.z := rfl

@[simp] theorem sub_x [Sub α] (v w : Vec3 α) : (v - w).x = v.x - w.x := rfl

@[simp] theorem sub_y [Sub α] (v w : Vec3 α) : (v - w).y = v.y - w.y := rfl

@[simp] theorem sub_z [Sub α] (v w : Vec3 α) : (v - w).z = v.z - w.z := rfl

@[simp] theorem neg_x [Neg α] (v : Vec3 α) : (-v).x = -v.x := rfl

@[simp] theorem neg_y [Neg α] (v : Vec3 α) : (-v).y = -v.y := rfl

@[simp] theorem neg_z [Neg α] (v : Vec3 α) : (-v).z = -v.z := rfl

theorem get_map (f : α → β) (v : Vec3 α) (axis : Axis) : (v.map f).get axis = f (v.get axis) := by
  cases axis <;> rfl

theorem get_zipWith (f : α → β → γ) (v : Vec3 α) (w : Vec3 β) (axis : Axis) :
    (v.zipWith f w).get axis = f (v.get axis) (w.get axis) := by
  cases axis <;> rfl

theorem get_set (v : Vec3 α) (axis : Axis) (a : α) : (v.set axis a).get axis = a := by
  cases axis <;> rfl

theorem mem_toList {v : Vec3 α} {a : α} : a ∈ v.toList ↔ ∃ axis, v.get axis = a := by
  simp only [toList, List.mem_cons, List.not_mem_nil, or_false]
  constructor
  · rintro (rfl | rfl | rfl)
    · exact ⟨.x, rfl⟩
    · exact ⟨.y, rfl⟩
    · exact ⟨.z, rfl⟩
  · rintro ⟨axis, rfl⟩
    cases axis
    · exact Or.inl rfl
    · exact Or.inr (Or.inl rfl)
    · exact Or.inr (Or.inr rfl)

theorem ext_get {v w : Vec3 α} (h : ∀ axis, v.get axis = w.get axis) : v = w :=
  Vec3.ext (h .x) (h .y) (h .z)

theorem all_eq_true_iff {p : α → Bool} {v : Vec3 α} :
    v.all p = true ↔ ∀ axis, p (v.get axis) = true := by
  rw [all, Bool.and_eq_true, Bool.and_eq_true, and_assoc, Axis.forall_iff]
  rfl

theorem any_eq_true_iff {p : α → Bool} {v : Vec3 α} :
    v.any p = true ↔ ∃ axis, p (v.get axis) = true := by
  simp only [any, Bool.or_eq_true]
  constructor
  · rintro ((hx | hy) | hz)
    · exact ⟨.x, hx⟩
    · exact ⟨.y, hy⟩
    · exact ⟨.z, hz⟩
  · rintro ⟨axis, h⟩
    cases axis
    · exact Or.inl (Or.inl h)
    · exact Or.inl (Or.inr h)
    · exact Or.inr h

/-- The sum of the products of entries, taken in order and starting from zero. -/
def dot {K : Type} [Scalar K] (v w : Vec3 K) : K :=
  Scalar.ofInt 0 + v.x * w.x + v.y * w.y + v.z * w.z

end Vec3

/-- A position in the voxel lattice. -/
abbrev Coord := Vec3 Int

namespace Coord

/-- Lexicographic comparison, the x axis first. -/
def lexOrder : Coord → Coord → Ordering :=
  compareLex (compareOn Vec3.x) (compareLex (compareOn Vec3.y) (compareOn Vec3.z))

instance : Ord Coord := ⟨lexOrder⟩

instance : Std.TransOrd Coord :=
  inferInstanceAs (Std.TransCmp
    (compareLex (compareOn Vec3.x) (compareLex (compareOn Vec3.y) (compareOn Vec3.z))))

instance : Std.LawfulEqOrd Coord where
  eq_of_compare := by
    intro a b h
    have h : (compare a.x b.x).then ((compare a.y b.y).then (compare a.z b.z)) = .eq := h
    obtain ⟨hx, hyz⟩ := Ordering.then_eq_eq.mp h
    obtain ⟨hy, hz⟩ := Ordering.then_eq_eq.mp hyz
    exact Vec3.ext (Std.LawfulEqOrd.eq_of_compare hx) (Std.LawfulEqOrd.eq_of_compare hy)
      (Std.LawfulEqOrd.eq_of_compare hz)

theorem compare_ne {c d : Coord} (h : d ≠ c) : compare c d ≠ .eq := fun he =>
  h (Std.LawfulEqOrd.eq_of_compare he).symm

/-- The x axis decides first, and the z axis last. -/
theorem compare_eq_lt_iff {c d : Coord} : compare c d = .lt ↔
    c.x < d.x ∨ c.x = d.x ∧ (c.y < d.y ∨ c.y = d.y ∧ c.z < d.z) := by
  show (compare c.x d.x).then ((compare c.y d.y).then (compare c.z d.z)) = .lt ↔ _
  simp only [Ordering.then_eq_lt, Int.compare_eq_lt, Int.compare_eq_eq]

/-- The coordinate as a triple of scalars. -/
def toScalars {K : Type} [Scalar K] (c : Coord) : Vec3 K :=
  c.map Scalar.ofInt

/-- The coordinate as a triple of scalars, unless an entry is too large to be one. -/
def toScalars? {K : Type} [Scalar K] (c : Coord) : Except Fault (Vec3 K) :=
  c.mapM Scalar.ofInt?

/-- Where every scalar is finite, no entry is too large. -/
theorem toScalars?_eq_ok {K : Type} [Scalar K] (h : ∀ a : K, Scalar.isFinite a = true)
    (c : Coord) : (c.toScalars? : Except Fault (Vec3 K)) = .ok c.toScalars :=
  Vec3.mapM_eq_ok fun _ => Scalar.ofInt?_eq_ok (h _)

end Coord

end SparseVoxel

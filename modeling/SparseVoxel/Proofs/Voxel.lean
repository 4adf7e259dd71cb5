import SparseVoxel.Voxel

/-!
# States that are equal as numbers

The equality of values need not be the usual one: two zeros of different sign are equal, and what
is no number differs from itself. `Voxel.Same` joins it with the usual equality, which makes it an
equivalence as soon as the equality of values is symmetric and transitive.
-/

namespace SparseVoxel

/-- What equals something is a number, and equals itself. -/
theorem beq_self_of_beq {α : Type} [BEq α] [PartialEquivBEq α] {a b : α} (h : (a == b) = true) :
    (a == a) = true :=
  PartialEquivBEq.trans h (PartialEquivBEq.symm h)

namespace Voxel

variable {V : Type} [BEq V]

theorem beq_iff {a b : Voxel V} : (a == b) = true ↔ (a.value == b.value) = true ∧
    a.active = b.active := by
  show (a.value == b.value && a.active == b.active) = true ↔ _
  rw [Bool.and_eq_true, beq_iff_eq (a := a.active)]

instance [PartialEquivBEq V] : PartialEquivBEq (Voxel V) where
  symm h := by
    rw [beq_iff] at h ⊢
    exact ⟨PartialEquivBEq.symm h.1, h.2.symm⟩
  trans h h' := by
    rw [beq_iff] at h h' ⊢
    exact ⟨PartialEquivBEq.trans h.1 h'.1, h.2.trans h'.2⟩

/-- States that are the same, or equal as numbers. Only a value that is no number differs from
itself as a number. -/
def Same (a b : Voxel V) : Prop :=
  a = b ∨ (a == b) = true

namespace Same

theorem refl (a : Voxel V) : Same a a :=
  Or.inl rfl

theorem active_eq {a b : Voxel V} (h : Same a b) : a.active = b.active := by
  rcases h with rfl | h
  · rfl
  · exact (beq_iff.mp h).2

theorem beq {a b : Voxel V} (h : Same a b) (hb : (b == b) = true) : (a == b) = true := by
  rcases h with rfl | h
  · exact hb
  · exact h

theorem withActive {a b : Voxel V} (h : Same a b) (on : Bool) :
    Same { a with active := on } { b with active := on } := by
  rcases h with rfl | h
  · exact refl _
  · exact Or.inr (beq_iff.mpr ⟨(beq_iff.mp h).1, rfl⟩)

variable [PartialEquivBEq V]

theorem symm {a b : Voxel V} (h : Same a b) : Same b a :=
  h.imp Eq.symm PartialEquivBEq.symm

theorem trans {a b c : Voxel V} (h : Same a b) (h' : Same b c) : Same a c := by
  rcases h with rfl | h
  · exact h'
  · rcases h' with rfl | h'
    · exact Or.inr h
    · exact Or.inr (PartialEquivBEq.trans h h')

end Same

theorem eq_of_same [LawfulBEq V] {a b : Voxel V} (h : Same a b) : a = b :=
  h.elim id eq_of_beq

end Voxel

end SparseVoxel

/-!
# Ranges of machine integers

The bounds are exclusive above; the negated bound of a signed range belongs to it. What leaves the
range of 64 bits is brought back into it by wrapping around.
-/

namespace SparseVoxel.Word

/-- Two to the 31st power. -/
def bound32 : Int :=
  0x80000000

/-- Two to the 63rd power. -/
def bound64 : Int :=
  0x8000000000000000

/-- Whether an integer lies in the signed range below a bound. -/
def isSigned (bound n : Int) : Bool :=
  decide (-bound ≤ n) && decide (n < bound)

/-- The integer itself where it lies in the signed range below a bound. The least integer of the
range stands for every other one. -/
def orLeast (bound n : Int) : Int :=
  if isSigned bound n then n else -bound

/-- Whether an integer needs all 64 bits for its size. -/
def isUnsigned (n : Int) : Bool :=
  decide (bound64 ≤ n) && decide (n < 2 * bound64)

/-- The integer of 64 bits with a sign that an integer wraps around to. -/
def wrapSigned (n : Int) : Int :=
  (n + bound64) % (2 * bound64) - bound64

/-- The integer of 64 bits without a sign that an integer wraps around to. -/
def wrapUnsigned (n : Int) : Int :=
  n % (2 * bound64)

/-- What fits with a sign does not need the last bit for its size. -/
theorem isUnsigned_of_isSigned {n : Int} (h : isSigned bound64 n = true) :
    isUnsigned n = false := by
  simp only [isSigned, Bool.and_eq_true, decide_eq_true_eq] at h
  simp only [isUnsigned, Bool.and_eq_false_iff, decide_eq_false_iff_not]
  omega

theorem orLeast_between {bound : Int} (hbound : 0 < bound) (n : Int) :
    -bound ≤ orLeast bound n ∧ orLeast bound n < bound := by
  unfold orLeast
  split
  · next h => simpa [isSigned] using h
  · exact ⟨Int.le_refl _, by omega⟩

/-- The integers of a signed range stand for themselves. -/
theorem orLeast_of_le_of_lt {bound n : Int} (hle : -bound ≤ n) (hlt : n < bound) :
    orLeast bound n = n :=
  if_pos (by simp [isSigned, hle, hlt])

theorem orLeast_int32 (n : Int32) : orLeast bound32 n.toInt = n.toInt :=
  orLeast_of_le_of_lt n.le_toInt n.toInt_lt

theorem orLeast_int64 (n : Int64) : orLeast bound64 n.toInt = n.toInt :=
  orLeast_of_le_of_lt n.le_toInt n.toInt_lt

/-- Wrapping around leaves the integers of the signed range as they are. -/
theorem wrapSigned_of_isSigned {n : Int} (h : isSigned bound64 n = true) : wrapSigned n = n := by
  simp only [isSigned, Bool.and_eq_true, decide_eq_true_eq] at h
  simp only [wrapSigned, bound64] at h ⊢
  omega

end SparseVoxel.Word

import SparseVoxel.Fault
import SparseVoxel.Decimal.Scientific

/-!
# Scalars

The geometry of the library is written once, over any type of scalars. `Scalar` has the four
operations, the comparisons and the rounding to integers; `Trigonometry` has the functions that
rotations need. Binary64 numbers are one instance. A number type whose arithmetic is exact is
another, and there every `isFinite` holds.

Nothing here reorders arithmetic: on binary64 each definition says which operations are rounded
and in which order.
-/

namespace SparseVoxel

/-- A type of numbers that can be added, compared and rounded. -/
class Scalar (K : Type) extends Add K, Sub K, Mul K, Div K, Neg K, LT K, LE K, BEq K where
  decLt : DecidableLT K
  decLe : DecidableLE K
  ofInt : Int → K
  /-- Whether a value is no number at all. -/
  isNaN : K → Bool
  isFinite : K → Bool
  /-- The greatest integer not above a finite value. -/
  floor : K → Int
  /-- The least integer not below a finite value. -/
  ceil : K → Int
  /-- The floor as an array index, if the value has one that an array could hold. -/
  index? : K → Option Int
  /-- The product of values, which stays in range wherever the result does. -/
  product : List K → K
  /-- The value as text, for messages. -/
  text : K → String

/-- The functions that rotations and lengths need. -/
class Trigonometry (K : Type) where
  pi : K
  sqrt : K → K
  sin : K → K
  cos : K → K
  /-- The angle of the point with the given ordinate and abscissa. -/
  atan2 : K → K → K
  /-- The length of the hypotenuse over two legs. -/
  hypot : K → K → K

namespace Scalar

variable {K : Type} [Scalar K]

instance : DecidableLT K := Scalar.decLt

instance : DecidableLE K := Scalar.decLe

/-- Numerals denote integers. -/
scoped instance (n : Nat) : OfNat K n := ⟨Scalar.ofInt n⟩

/-- The magnitude of a value. -/
def abs (a : K) : K :=
  if a < 0 then -a else a

/-- The lesser of two values; what is no number is passed on. -/
def least (a b : K) : K :=
  if a ≤ b then a else if b ≤ a then b else a + b

/-- The greater of two values; what is no number is passed on. -/
def greatest (a b : K) : K :=
  if b ≤ a then a else if a ≤ b then b else a + b

/-- The reciprocal of a power of ten. -/
def tenth (n : Nat) : K :=
  1 / Scalar.ofInt (Decimal.tenTo n)

/-- One half. -/
def half : K :=
  1 / 2

/-- Whether `a` is near `b`: within `absolute` plus `relative` times the size of `b`, or equal. -/
def near (relative absolute a b : K) : Bool :=
  (decide (Scalar.abs (a - b) ≤ absolute + relative * Scalar.abs b) && Scalar.isFinite b) || a == b

theorem near_eq_true_iff {relative absolute a b : K} : near relative absolute a b = true ↔
    (Scalar.abs (a - b) ≤ absolute + relative * Scalar.abs b ∧ Scalar.isFinite b = true) ∨
      (a == b) = true := by
  rw [near, Bool.or_eq_true, Bool.and_eq_true, decide_eq_true_eq]

/-- The integer nearest to a value, an exact half going to the even neighbour. -/
def roundEven (a : K) : Int :=
  let n := Scalar.floor a
  let rest := a - Scalar.ofInt n
  if rest < half then n
  else if half < rest then n + 1
  else n + n % 2

/-- The value of an integer that is not too large to have one. -/
def ofInt? (n : Int) : Except Fault K :=
  if Scalar.isFinite (Scalar.ofInt n : K) then .ok (Scalar.ofInt n) else .error .integerTooLarge

/-- An infinite or meaningless value has no integer. -/
def requireFinite (a : K) : Except Fault Unit :=
  if Scalar.isFinite a then .ok ()
  else if Scalar.isNaN a then .error .notANumber
  else .error .infinite

/-- The floor, of a value that has one. -/
def floor? (a : K) : Except Fault Int := do
  requireFinite a
  return Scalar.floor a

/-- The ceiling, of a value that has one. -/
def ceil? (a : K) : Except Fault Int := do
  requireFinite a
  return Scalar.ceil a

theorem floor?_eq_ok {a : K} (h : Scalar.isFinite a = true) :
    floor? a = .ok (Scalar.floor a) := by
  simp only [floor?, requireFinite, h, if_true]
  rfl

theorem ceil?_eq_ok {a : K} (h : Scalar.isFinite a = true) :
    ceil? a = .ok (Scalar.ceil a) := by
  simp only [ceil?, requireFinite, h, if_true]
  rfl

theorem ofInt?_eq_ok {n : Int} (h : Scalar.isFinite (Scalar.ofInt n : K) = true) :
    (ofInt? n : Except Fault K) = .ok (Scalar.ofInt n) := by
  simp only [ofInt?, h, if_true]

/-- Values in square brackets. -/
def listText (xs : List K) : String :=
  "[" ++ ", ".intercalate (xs.map Scalar.text) ++ "]"

end Scalar

end SparseVoxel

import SparseVoxel.Scalar.Binary64

/-!
# Numbers as they are given

A `Number` is a truth value, an integer of any size, or a binary64 number. Nothing is rounded until
a number has to become one of another kind: a real number for the geometry, or an integer, for
which it is cut off toward zero.
-/

namespace SparseVoxel

/-- A number as it is given. -/
inductive Number where
  | bool (b : Bool)
  | int (n : Int)
  | real (x : Float)

namespace Number

/-- The nearest binary64 number. An integer may be too large to have one. -/
def toFloat? : Number → Except Fault Float
  | bool b => .ok (if b then 1.0 else 0.0)
  | int n => Scalar.ofInt? n
  | real x => .ok x

/-- Whether the number differs from zero. -/
def toBool : Number → Bool
  | bool b => b
  | int n => n != 0
  | real x => x != 0.0

/-- The number cut off toward zero, if it is finite. -/
def truncate? : Number → Except Fault Int
  | bool b => .ok (if b then 1 else 0)
  | int n => .ok n
  | real x => do
    Scalar.requireFinite x
    return Binary64.integer Dyadic.truncate x

/-- The number cut off toward zero, if it then lies in the signed range below a bound. -/
def word? (bound : Int) (n : Number) : Except Fault Int := do
  let i ← n.truncate?
  if Word.isSigned bound i then return i else .error .integerTooLarge

/-- Whether the exact value of a binary64 number is greater than an integer. -/
def realExceeds (x : Float) (m : Int) : Bool :=
  match Binary64.read x with
  | .notANumber => false
  | .infinite negative => !negative
  | .finite d =>
    let size : Int := d.numerator
    decide (m * d.denominator < if d.negative then -size else size)

/-- Whether the number is greater than an integer. -/
def exceeds : Number → Int → Bool
  | bool b, m => decide (m < if b then 1 else 0)
  | int n, m => decide (m < n)
  | real x, m => realExceeds x m

/-- The number as text. -/
def text : Number → String
  | bool b => if b then "True" else "False"
  | int n => toString n
  | real x => Decimal.shortest x

end Number

end SparseVoxel

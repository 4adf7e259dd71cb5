import SparseVoxel.Decimal.Shortest
import SparseVoxel.Scalar.Basic
import SparseVoxel.Scalar.Hypotenuse
import SparseVoxel.Word

/-!
# Binary64 numbers as scalars

Integers are taken from the exact reading of a number, so no rounding enters there. The
least signed integer of 64 bits stands for no index.
-/

namespace SparseVoxel

namespace Binary64

/-- A function of the exact value; zero for what is not finite. -/
def integer (f : Dyadic → Int) (x : Float) : Int :=
  match read x with
  | .finite d => f d
  | _ => 0

/-- The floor of a number as an array index. -/
def index? (x : Float) : Option Int :=
  match read x with
  | .finite d =>
    let n := d.floor
    if -Word.bound64 < n ∧ n < Word.bound64 then some n else none
  | _ => none

/-- The number nearest to an integer. -/
def ofInt (n : Int) : Float :=
  if n < 0 then -(Float.ofNat n.natAbs) else Float.ofNat n.natAbs

/-- The product of numbers by way of the sum of their logarithms, so that nothing overflows or
vanishes on the way. A factor of zero settles it. -/
def product (xs : List Float) : Float :=
  if xs.any (· == 0.0) then 0.0
  else
    let size := (xs.foldl (fun sum (x : Float) => sum + x.abs.log) 0.0).exp
    if xs.foldl (fun odd x => odd ^^ decide (x < 0.0)) false then -size else size

end Binary64

instance : Scalar Float where
  decLt := fun a b => inferInstanceAs (Decidable (a < b))
  decLe := fun a b => inferInstanceAs (Decidable (a ≤ b))
  ofInt := Binary64.ofInt
  isNaN := Float.isNaN
  isFinite := Float.isFinite
  floor := Binary64.integer Dyadic.floor
  ceil := Binary64.integer Dyadic.ceil
  index? := Binary64.index?
  product := Binary64.product
  text := Decimal.shortest

instance : Trigonometry Float where
  pi := 3.141592653589793
  sqrt := Float.sqrt
  sin := Float.sin
  cos := Float.cos
  atan2 := Float.atan2
  hypot := Binary64.hypot

end SparseVoxel

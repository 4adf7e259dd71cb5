import SparseVoxel.Decimal.Dyadic

/-!
# The hypotenuse, rounded once

The sum of the squares of two binary64 numbers is an exact dyadic rational, so the length of the
hypotenuse over them can be rounded to nearest in a single step. The square root of the integer part
is a neighbour of the root that is looked for, and comparing four times the radicand with an odd
square decides between it and the next one (`roundSqrt`).
-/

namespace SparseVoxel

/-- The natural nearest to the square root of `num / den`, an exact half going to the even
neighbour. -/
def roundSqrt (num den : Nat) : Nat :=
  let n := (num / den).sqrt
  let half := (2 * n + 1) * (2 * n + 1) * den
  if 4 * num < half then n
  else if half < 4 * num then n + 1
  else n + n % 2

namespace Binary64

/-- The binary64 number nearest to the square root of `m · 4 ^ e`. Its last place stands for
`2 ^ unit`, which leaves 53 bits unless the number is subnormal. -/
def ofRoot (m : Nat) (e : Int) : Float :=
  let unit := max (-1074) (e + (m.log2 / 2 : Nat) - 52)
  let down := 2 * (unit - e).toNat
  let up := 2 * (e - unit).toNat
  (Float.ofNat (roundSqrt (m <<< up) (1 <<< down))).scaleB unit

/-- The length of the hypotenuse over two legs. An infinite leg makes it infinite, whatever the
other one is. -/
def hypot (a b : Float) : Float :=
  match read a, read b with
  | .infinite _, _ | _, .infinite _ => 1.0 / 0.0
  | .finite x, .finite y =>
    let e := min x.exponent y.exponent
    let p := x.mantissa <<< (x.exponent - e).toNat
    let q := y.mantissa <<< (y.exponent - e).toNat
    ofRoot (p * p + q * q) e
  | _, _ => 0.0 / 0.0

end Binary64

end SparseVoxel

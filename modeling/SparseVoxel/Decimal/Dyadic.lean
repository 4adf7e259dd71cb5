/-!
# Binary64 numbers as exact dyadic rationals

`Binary64.read` splits a number into its kind: not a number, an infinity, or a finite value
`± mantissa · 2 ^ exponent` that is exact. Number text and conversions to integers start from
this form, so that they need no floating-point arithmetic of their own.
-/

namespace SparseVoxel

/-- The exact value `± mantissa · 2 ^ exponent`. -/
structure Dyadic where
  negative : Bool
  mantissa : Nat
  exponent : Int
deriving DecidableEq, Repr

namespace Dyadic

/-- The mantissa with its sign. -/
def signedMantissa (d : Dyadic) : Int :=
  if d.negative then -(d.mantissa : Int) else d.mantissa

/-- The greatest integer not above the value. -/
def floor (d : Dyadic) : Int :=
  match d.exponent with
  | .ofNat k => d.signedMantissa <<< k
  | .negSucc k => d.signedMantissa >>> (k + 1)

/-- The least integer not below the value. -/
def ceil (d : Dyadic) : Int :=
  -(floor { d with negative := !d.negative })

/-- The integer nearest to the value on the side of zero. -/
def truncate (d : Dyadic) : Int :=
  let size := floor { d with negative := false }
  if d.negative then -size else size

/-- Numerator of the magnitude, over `denominator`. -/
def numerator (d : Dyadic) : Nat :=
  d.mantissa <<< d.exponent.toNat

/-- Denominator of the magnitude, a power of two. -/
def denominator (d : Dyadic) : Nat :=
  1 <<< (-d.exponent).toNat

end Dyadic

namespace Binary64

/-- What a binary64 number stands for. -/
inductive Reading where
  | notANumber
  | infinite (negative : Bool)
  | finite (value : Dyadic)
deriving DecidableEq, Repr

/-- The number with the given bits. A biased exponent of zero marks the subnormal numbers, which
have no hidden leading bit; one of 2047 marks infinities and what is no number. -/
def readBits (bits : UInt64) : Reading :=
  let negative := bits >>> 63 == 1
  let biased := ((bits >>> 52) &&& 0x7ff).toNat
  let fraction := (bits &&& 0xfffffffffffff).toNat
  if biased = 2047 then
    if fraction = 0 then .infinite negative else .notANumber
  else if biased = 0 then
    .finite ⟨negative, fraction, -1074⟩
  else
    .finite ⟨negative, fraction + 0x10000000000000, (biased : Int) - 1075⟩

/-- The exact reading of a number. -/
def read (x : Float) : Reading :=
  readBits x.toBits

end Binary64

end SparseVoxel

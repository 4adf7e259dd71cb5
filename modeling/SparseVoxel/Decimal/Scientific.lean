import SparseVoxel.Decimal.Dyadic

/-!
# Decimal text with a fixed number of places

`Decimal.roundDiv` rounds a quotient of naturals to the nearest natural, ties to even, and
`Decimal.decade` finds the power of ten just below a positive fraction. Together they give the
correctly rounded scientific form of any finite binary64 number.
-/

namespace SparseVoxel.Decimal

/-- A power of ten. -/
def tenTo (n : Nat) : Nat :=
  Nat.pow 10 n

/-- The natural nearest to `num / den`, an exact half going to the even neighbour. -/
def roundDiv (num den : Nat) : Nat :=
  let q := num / den
  let r := 2 * (num % den)
  if r < den then q
  else if den < r then q + 1
  else q + q % 2

/-- How many decimal digits a natural has, none for zero. -/
def digitCount (n : Nat) : Nat :=
  if n = 0 then 0 else (Nat.toDigits 10 n).length

/-- The exponent `e` with `10 ^ e ≤ num / den < 10 ^ (e + 1)`, for a positive fraction. -/
def decade (num den : Nat) : Int :=
  if den ≤ num then (digitCount (num / den) : Int) - 1
  else -(digitCount ((den - 1) / num) : Int)

/-- `num / den` divided by `10 ^ k` and rounded. -/
def roundScaled (num den : Nat) (k : Int) : Nat :=
  match k with
  | .ofNat n => roundDiv num (den * tenTo n)
  | .negSucc n => roundDiv (num * tenTo (n + 1)) den

/-- A natural in decimal, filled with leading zeros up to a width. -/
def padded (width n : Nat) : String :=
  let digits := Nat.toDigits 10 n
  String.ofList (List.replicate (width - digits.length) '0' ++ digits)

/-- An exponent with its sign and at least two digits. -/
def exponentText (e : Int) : String :=
  (if e < 0 then "-" else "+") ++ padded 2 e.natAbs

/-- A digit, a point, the given number of places and an exponent. -/
def scientificMagnitude (places : Nat) (num den : Nat) : String :=
  if num = 0 then
    layout 0 0
  else
    let e := decade num den
    let n := roundScaled num den (e - places)
    -- rounding up may reach the next power of ten
    if n = tenTo (places + 1) then layout (tenTo places) (e + 1) else layout n e
where
  layout (n : Nat) (e : Int) : String :=
    let digits := padded (places + 1) n
    let lead := String.ofList (digits.toList.take 1)
    let rest := String.ofList (digits.toList.drop 1)
    lead ++ (if places = 0 then "" else "." ++ rest) ++ "e" ++ exponentText e

/-- The scientific form of a binary64 number with the given number of places. -/
def scientific (places : Nat) (x : Float) : String :=
  match Binary64.read x with
  | .notANumber => "nan"
  | .infinite negative => if negative then "-inf" else "inf"
  | .finite d =>
    (if d.negative then "-" else "") ++ scientificMagnitude places d.numerator d.denominator

end SparseVoxel.Decimal

import SparseVoxel.Decimal.Scientific

/-!
# The shortest decimal that reads back

Every finite binary64 number is the nearest one to a whole interval of reals. `shortestDigits`
tries one digit, then two, up to seventeen, and stops at the first decimal grid that has a point
in that interval; of the value's two neighbours on that grid it takes the nearer. `shortest`
writes the digits positionally while the decimal exponent lies in a range fixed by `Layout`.
-/

namespace SparseVoxel.Decimal

/-- A decimal `digits · 10 ^ exponent`. -/
structure Digits where
  digits : Nat
  exponent : Int
deriving DecidableEq, Repr

/-- The interval of reals that round to a positive number, over the common denominator `den`.
Its ends belong to it exactly when the mantissa is even. -/
structure RoundingInterval where
  lower : Nat
  value : Nat
  upper : Nat
  den : Nat
  closed : Bool

/-- Below a power of two the neighbours lie half as far apart, except at the least exponent. -/
def RoundingInterval.ofDyadic (d : Dyadic) : RoundingInterval :=
  let unit := 1 <<< d.exponent.toNat
  let value := 4 * d.numerator
  let below := if d.mantissa = 0x10000000000000 ∧ d.exponent ≠ -1074 then unit else 2 * unit
  { lower := value - below
    value
    upper := value + 2 * unit
    den := 4 * d.denominator
    closed := d.mantissa % 2 = 0 }

/-- Whether `n · 10 ^ k` lies in the interval. -/
def RoundingInterval.holds (r : RoundingInterval) (n : Nat) (k : Int) : Bool :=
  let point := n * tenTo k.toNat * r.den
  let scale := tenTo (-k).toNat
  if r.closed then r.lower * scale ≤ point && point ≤ r.upper * scale
  else r.lower * scale < point && point < r.upper * scale

/-- The value's neighbours on the grid of spacing `10 ^ k` that lie in the interval, the nearer
one if both do; the even one when they are equally near. -/
def RoundingInterval.nearest? (r : RoundingInterval) (k : Int) : Option Nat :=
  let num := r.value * tenTo (-k).toNat
  let den := r.den * tenTo k.toNat
  let down := num / den
  let best := roundDiv num den
  let other := if best = down then down + 1 else down
  if r.holds best k then some best
  else if r.holds other k then some other
  else none

/-- Tries grids of ever more digits, starting with `count` of them. -/
def RoundingInterval.search (r : RoundingInterval) (lead : Int) (count : Nat) : Nat → Digits
  | 0 => ⟨r.value / r.den, 0⟩
  | fuel + 1 =>
    let k := lead - count + 1
    match r.nearest? k with
    | some n => ⟨n, k⟩
    | none => r.search lead (count + 1) fuel

/-- The shortest digits that read back as a positive number. Seventeen always suffice. -/
def shortestDigits (d : Dyadic) : Digits :=
  (RoundingInterval.ofDyadic d).search (decade d.numerator d.denominator) 1 17

/-- How the digits of a number are laid out: positionally from `least` up to, and without,
`most` as decimal exponent, in scientific form elsewhere. -/
structure Layout where
  least : Int
  most : Int

/-- Positional between `1e-4` and `1e16`, always with a point. -/
def plain : Layout := ⟨-4, 16⟩

/-- Drops trailing zeros of a digit string, keeping one digit. -/
def dropTrailingZeros (cs : List Char) : List Char :=
  match (cs.reverse.dropWhile (· = '0')).reverse with
  | [] => ['0']
  | kept => kept

/-- Positive digits written after a layout. -/
def Layout.write (l : Layout) (d : Digits) : String :=
  let all := Nat.toDigits 10 d.digits
  let lead := d.exponent + all.length - 1
  let ds := dropTrailingZeros all
  if l.least ≤ lead ∧ lead < l.most then
    if lead < 0 then
      "0." ++ String.ofList (List.replicate ((-lead).toNat - 1) '0' ++ ds)
    else
      let whole := lead.toNat + 1
      let front := ds.take whole ++ List.replicate (whole - ds.length) '0'
      let back := ds.drop whole
      String.ofList front ++ "." ++ (if back.isEmpty then "0" else String.ofList back)
  else
    let back := ds.drop 1
    String.ofList (ds.take 1) ++ (if back.isEmpty then "" else "." ++ String.ofList back) ++ "e" ++
      exponentText lead

/-- The shortest text that reads back as the number. -/
def shortest (x : Float) : String :=
  match Binary64.read x with
  | .notANumber => "nan"
  | .infinite negative => if negative then "-inf" else "inf"
  | .finite d =>
    (if d.negative then "-" else "") ++
      if d.mantissa = 0 then "0.0" else plain.write (shortestDigits d)

end SparseVoxel.Decimal

import SparseVoxel.Decimal.Shortest

/-!
# Numbers in columns

Numbers written under one another share a layout. `Column.of` chooses it from all of them: points
are aligned, and where sizes differ too much every number is in scientific form. A number has as
many places as it needs to read back, but no more than `mostPlaces`; `Column.write` fills the rest
with blanks, or with zeros in scientific form.
-/

namespace SparseVoxel.Decimal

/-- The most places of a number in a column. -/
def mostPlaces : Nat :=
  8

/-- The parts of a written number: its sign and whole digits, the digits behind the point, and the
power of ten that goes with them. -/
structure Written where
  whole : String
  fraction : String
  exponent : Int

namespace Written

/-- Drops trailing zeros of a digit string. -/
def trimmed (cs : List Char) : String :=
  String.ofList (cs.reverse.dropWhile (· = '0')).reverse

/-- The sign in front of a number. -/
def sign (d : Dyadic) : String :=
  if d.negative then "-" else ""

/-- A number in positional form. -/
def positional (d : Dyadic) : Written :=
  if d.mantissa = 0 then ⟨sign d ++ "0", "", 0⟩
  else
    let s := shortestDigits d
    let n :=
      if s.exponent < -mostPlaces then roundScaled d.numerator d.denominator (-mostPlaces)
      else s.digits * tenTo (s.exponent + mostPlaces).toNat
    let one := tenTo mostPlaces
    ⟨sign d ++ toString (n / one), trimmed (padded mostPlaces (n % one)).toList, 0⟩

/-- A number in scientific form. -/
def scientific (d : Dyadic) : Written :=
  if d.mantissa = 0 then ⟨sign d ++ "0", "", 0⟩
  else
    let s := shortestDigits d
    let s :=
      if digitCount s.digits ≤ mostPlaces + 1 then s
      else
        let k := decade d.numerator d.denominator - mostPlaces
        ⟨roundScaled d.numerator d.denominator k, k⟩
    let all := Nat.toDigits 10 s.digits
    ⟨sign d ++ String.ofList (all.take 1), trimmed (all.drop 1), s.exponent + all.length - 1⟩

/-- How many digits the exponent of a number takes. -/
def exponentWidth (w : Written) : Nat :=
  max 2 (digitCount w.exponent.natAbs)

end Written

/-- The layout of a column: the room before and behind the points, and, where numbers are in
scientific form, how many places and how many digits of the exponent each has. -/
structure Column where
  before : Nat
  behind : Nat
  scientific : Option (Nat × Nat)

namespace Column

/-- The greatest of some naturals. -/
def widest (ns : List Nat) : Nat :=
  ns.foldl max 0

/-- Whether the sizes of numbers differ so much that positional form would not show them well. -/
def spreads (xs : List Float) : Bool :=
  match (xs.map Float.abs).filter (0 < ·) with
  | [] => false
  | x :: rest =>
    let least := rest.foldl min x
    let most := rest.foldl max x
    1e8 ≤ most || least < 1e-4 || 1e3 < most / least

/-- The layout for numbers that are all finite. -/
def ofFinite (xs : List Float) : Column :=
  let ds := xs.filterMap fun x =>
    match Binary64.read x with
    | .finite d => some d
    | _ => none
  if spreads xs then
    let ws := ds.map Written.scientific
    let places := widest (ws.map (·.fraction.length))
    let digits := widest (ws.map Written.exponentWidth)
    -- the exponent brings its mark and its sign
    ⟨widest (ws.map (·.whole.length)), places + digits + 2, some (places, digits)⟩
  else
    let ws := ds.map Written.positional
    ⟨widest (ws.map (·.whole.length)), widest (ws.map (·.fraction.length)), none⟩

/-- The number of characters of a number in the column. -/
def width (c : Column) : Nat :=
  c.before + 1 + c.behind

/-- The layout with room for names of three characters, and a sign where one of them has it. -/
def withNames (c : Column) (signed : Bool) : Column :=
  { c with before := max c.before ((if signed then 4 else 3) - (c.behind + 1)) }

/-- The layout for numbers of any kind. -/
def of (xs : List Float) : Column :=
  let (finite, others) := xs.partition Float.isFinite
  let c := ofFinite finite
  if others.isEmpty then c else c.withNames (others.any (· < 0))

/-- Text at the right end of a field of a width. -/
def right (width : Nat) (text : String) : String :=
  String.ofList (text.toList.leftpad width ' ')

/-- A number laid out for the column. -/
def write (c : Column) (x : Float) : String :=
  match Binary64.read x with
  | .notANumber => right c.width "nan"
  | .infinite negative => right c.width (if negative then "-inf" else "inf")
  | .finite d =>
    match c.scientific with
    | none =>
      let w := Written.positional d
      right c.before w.whole ++ "." ++ String.ofList (w.fraction.toList.rightpad c.behind ' ')
    | some (places, digits) =>
      let w := Written.scientific d
      right c.before w.whole ++ "." ++ String.ofList (w.fraction.toList.rightpad places '0') ++
        "e" ++ (if w.exponent < 0 then "-" else "+") ++ padded digits w.exponent.natAbs

end Column

end SparseVoxel.Decimal

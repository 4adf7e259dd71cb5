import SparseVoxel.Box.Blocks
import SparseVoxel.Holding

/-!
# What a machine can hold

Grids are unbounded, but the voxels of a leaf, of a window and of a list of coordinates are kept in
arrays, and those are not. A `Machine` says for which arrays there is room and what becomes of the
coordinates that are kept in them. On `Machine.ideal` there is room for everything and coordinates
are integers; on `Machine.words` an array has so many bytes at most, and its coordinates have
64 bits. `Machine.HasRoom` says that there is room for the leaves of a grid.
-/

namespace SparseVoxel

/-- How many bytes of an array a value takes. -/
class Sized (V : Type) where
  bytes : Nat

/-- What arrays can hold, and what becomes of coordinates that are kept in them. -/
structure Machine where
  /-- Checks that there is room for an array of the given edges, told how many bytes an entry
  takes. -/
  reserve? : Vec3 Nat → Nat → Except Fault Unit
  /-- Checks that the offsets within a block of a size exponent fit into an array. -/
  offsets? : Nat → Except Fault Unit
  /-- The voxels of a box, the z axis running fastest. -/
  coords? : Box → Except Fault (List Coord)
  /-- Where the voxels of the leaf of a size exponent and a key are found to lie. -/
  locate? : Nat → Coord → Except Fault (Coord → Coord)

namespace Machine

/-- Room for a leaf of a size exponent, and for the offsets of its voxels. -/
structure HasRoom (machine : Machine) (V : Type) [Sized V] (k : Nat) : Prop where
  leaf : machine.reserve? (.replicate (Box.edge k)) (Sized.bytes V) = .ok ()
  offsets : machine.offsets? k = .ok ()

/-- The machine that can hold everything as it is. -/
def ideal : Machine where
  reserve? _ _ := .ok ()
  offsets? _ := .ok ()
  coords? b := .ok b.coords
  locate? _ _ := .ok id

theorem hasRoom_ideal (V : Type) [Sized V] (k : Nat) : ideal.HasRoom V k :=
  ⟨rfl, rfl⟩

theorem HasRoom.of_ideal {machine : Machine} (h : machine = ideal) (V : Type) [Sized V] (k : Nat) :
    machine.HasRoom V k :=
  h ▸ hasRoom_ideal V k

/-! ## Arrays of words -/

/-- The number of bytes from which on there is no memory for an array. -/
def memoryBytes : Nat :=
  0x100000000

/-- The bytes of an array of the given edges. An edge of length zero does not count. -/
def bytes (edges : Vec3 Nat) (entry : Nat) : Nat :=
  edges.toList.foldl (fun n edge => if edge = 0 then n else n * edge) entry

/-- Checks that there is memory for a number of bytes, which first has to be a word. -/
def checkBytes (n : Nat) : Except Fault Unit :=
  if Word.bound64 ≤ n then .error .arrayTooLarge
  else if memoryBytes ≤ n then .error .outOfMemory
  else .ok ()

/-- The integers from `lo` to `hi` as words. Their number is rounded to binary64; where that gives
the first number that is no word any more, the list comes out empty. The first two entries have to
be words, and the others wrap around. -/
def wordRange? (lo hi : Int) : Except Fault (List Int) :=
  match Binary64.read (Binary64.ofInt (hi - lo + 1)) with
  | .finite count =>
    if Word.bound64 < count.floor then .error .arrayTooLarge
    else if count.floor = Word.bound64 then .ok []
    else do
      checkBytes (8 * count.floor.toNat)
      if !Word.isSigned Word.bound64 lo || (lo < hi && !Word.isSigned Word.bound64 (lo + 1)) then
        .error .integerTooLarge
      else return (Box.range lo hi).map Word.wrapSigned
  | _ => .error .arrayTooLarge

/-- The voxels of a box as triples of words. -/
def wordCoords? (b : Box) : Except Fault (List Coord) := do
  if b.isEmpty then return []
  else
    let xs ← wordRange? b.lo.x b.hi.x
    let ys ← wordRange? b.lo.y b.hi.y
    let zs ← wordRange? b.lo.z b.hi.z
    checkBytes (bytes ⟨xs.length, ys.length, zs.length⟩ 8)
    return xs.flatMap fun x => ys.flatMap fun y => zs.map fun z => ⟨x, y, z⟩

/-- The coordinate of an axis that is the sum of an offset and the start of a block, where the
start is a word without a sign: the sum is then taken in binary64. -/
def unsignedSum (k : Nat) (index c : Int) : Int :=
  let start := Box.blockStart k index
  Binary64.integer Dyadic.truncate
    (Binary64.ofInt (c - start) + Binary64.ofInt (Word.wrapUnsigned start))

/-- Where the voxels of a leaf are found to lie, which depends on how an array holds its key. Words
with a sign wrap around, and a key that is no word leaves the voxels where they are. -/
def wordLocate? (k : Nat) (key : Coord) : Except Fault (Coord → Coord) :=
  match Holding.ofInts key.toList with
  | .separate => .ok id
  | .reals => .error .mixedSigns
  | .words =>
    if Word.isUnsigned key.x then .ok fun c => key.zipWith (unsignedSum k) c
    else .ok (Vec3.map Word.wrapSigned)

/-- The size exponent of a block, given as a number. It has to be an integer and not negative, and
the edge has to have a form in memory, which takes four bytes for each thirty binary digits. -/
def exponent? : Number → Except Fault Nat
  | .real _ => .error .wrongKind
  | .bool on => .ok (if on then 1 else 0)
  | .int n =>
    let digits := n.toNat / 30 + (if n.toNat % 30 = 0 then 1 else 2)
    if n < 0 then .error .negativeShift
    else if Word.bound64 ≤ 4 * digits + 24 then .error .integerTooLarge
    else if memoryBytes ≤ 4 * digits then .error .outOfMemory
    else .ok n.toNat

/-- The machine whose arrays hold words of 64 bits. -/
def words : Machine where
  reserve? edges entry := checkBytes (bytes edges entry)
  offsets? k := if k < 64 then .ok () else .error .integerTooLarge
  coords? := wordCoords?
  locate? := wordLocate?

/-- Where the key of a leaf and its voxels are words with a sign, the voxels are found where they
lie. -/
theorem wordLocate?_of_isSigned {k : Nat} {key : Coord}
    (h : ∀ n ∈ key.toList, Word.isSigned Word.bound64 n = true) :
    wordLocate? k key = .ok (Vec3.map Word.wrapSigned) := by
  have hx : Word.isUnsigned key.x = false :=
    Word.isUnsigned_of_isSigned (h key.x (by simp [Vec3.toList]))
  simp [wordLocate?, Holding.ofInts_eq_words h, hx]

end Machine

end SparseVoxel

import SparseVoxel.Affine.Basic

/-!
# Splitting an affine matrix into scale, rotation and shift

The scale magnitudes are the lengths of the columns of the linear block. Each of the eight
choices of signs for the scale leaves a candidate rotation; a choice is accepted when that
candidate keeps orientation and the block rebuilt from its Euler angles agrees with the given one.
Of the accepted choices the one that turns least wins. A matrix is split only if it is affine and
finite, no column is negligible, and it does not combine unequal scales with a rotation.
-/

namespace SparseVoxel

open Scalar

/-- Scale, rotation and shift of an affine matrix. The rotation is given by the angles of
the order `zyx`, and the matrix is `T(shift) · R · S`. -/
structure AffineParts (K : Type) where
  scale : Vec3 K
  rotation : Vec3 K
  shift : Vec3 K

namespace AffineParts

variable {K : Type} [Scalar K] [Trigonometry K]

/-- The matrix that the parts compose to. -/
def toMatrix (d : AffineParts K) : Matrix4 K :=
  Affine.pivoted none (some d.scale) (some (Euler.toMatrix .zyx d.rotation)) (some d.shift)

/-- The matrix that the parts compose to, unless an angle is infinite. -/
def toMatrix? (d : AffineParts K) : Except Fault (Matrix4 K) := do
  let r ← Euler.toMatrix? .zyx d.rotation
  return Affine.pivoted none (some d.scale) (some r) (some d.shift)

/-- The choices of signs in the order in which they are tried, the x axis slowest. -/
def signChoices : List (Vec3 K) :=
  [1, -1].flatMap fun x => [1, -1].flatMap fun y => [1, -1].map fun z => ⟨x, y, z⟩

/-- What a choice of signs makes of a linear block. -/
structure Candidate (K : Type) where
  scale : Vec3 K
  angles : Vec3 K

/-- The size of the largest angle of a candidate. -/
def Candidate.turn (c : Candidate K) : K :=
  greatest (greatest (Scalar.abs c.angles.x) (Scalar.abs c.angles.y)) (Scalar.abs c.angles.z)

/-- The block rebuilt from a candidate. -/
def Candidate.rebuild (c : Candidate K) : Matrix3 K :=
  (Euler.toMatrix .zyx c.angles).scaleColumns c.scale

/-- The candidate of a choice of signs. -/
def candidate (block : Matrix3 K) (norms signs : Vec3 K) : Candidate K :=
  let scale := norms.zipWith (· * ·) signs
  ⟨scale, Euler.ofMatrix (block.divideColumns scale)⟩

/-- Whether a choice of signs is accepted: it leaves no reflection, and its candidate rebuilds the
block to within the tolerance. -/
def accepts (block : Matrix3 K) (norms : Vec3 K) (tolerance : K) (signs : Vec3 K) : Bool :=
  let scale := norms.zipWith (· * ·) signs
  !decide ((block.divideColumns scale).det < 0) &&
    block.near 0 tolerance (candidate block norms signs).rebuild

/-- The better of the best candidate so far and a new one; the earlier one wins a tie. -/
def better (best : Option (Candidate K)) (c : Candidate K) : Option (Candidate K) :=
  match best with
  | none => if Scalar.isFinite c.turn then some c else none
  | some b => if c.turn < b.turn then some c else some b

/-- Goes through choices of signs, keeping the best accepted candidate. A candidate that hardly
turns at all ends the search. -/
def search (block : Matrix3 K) (norms : Vec3 K) (tolerance : K) (best : Option (Candidate K)) :
    List (Vec3 K) → Option (Candidate K)
  | [] => best
  | signs :: rest =>
    if accepts block norms tolerance signs then
      let c := candidate block norms signs
      let best := better best c
      if c.turn ≤ tolerance then best else search block norms tolerance best rest
    else search block norms tolerance best rest

/-- Whether all three lengths are near the first one. -/
def isUniform (norms : Vec3 K) (tolerance : K) : Bool :=
  norms.all fun n => near tolerance tolerance n norms.x

/-- The best candidate of a linear block, unless it has unequal scales and turns. -/
def ofBlock? (block : Matrix3 K) (tolerance : K) : Option (Candidate K) :=
  let norms := block.columnNorms
  if norms.any fun n => decide (n ≤ tolerance) then none
  else
    match search block norms tolerance none signChoices with
    | none => none
    | some c => if !isUniform norms tolerance && decide (tolerance < c.turn) then none else some c

/-- The parts of a matrix, if it can be split. -/
def ofMatrix? (m : Matrix4 K) (tolerance : K) : Option (AffineParts K) :=
  if m.isAffine && m.isFinite then
    (ofBlock? m.linear tolerance).map fun c => ⟨c.scale, c.angles, m.offset⟩
  else none

end AffineParts

end SparseVoxel

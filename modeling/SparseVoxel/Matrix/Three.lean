import SparseVoxel.Vec3

/-!
# Matrices of order three

A `Matrix3` is three rows. Products add up their terms in order, starting from zero.
-/

namespace SparseVoxel

/-- Three rows of three entries. -/
@[ext]
structure Matrix3 (K : Type) where
  rows : Vec3 (Vec3 K)
deriving BEq, Repr, Inhabited

namespace Matrix3

open Scalar

/-- The entry of a row and a column. -/
def entry {K : Type} (m : Matrix3 K) (i j : Axis) : K :=
  (m.rows.get i).get j

theorem ext_entry {K : Type} {a b : Matrix3 K}
    (h : ∀ i j, a.entry i j = b.entry i j) : a = b :=
  Matrix3.ext (Vec3.ext_get fun i => Vec3.ext_get (h i))

/-- The matrix with the given columns. -/
def ofColumns {K : Type} (cx cy cz : Vec3 K) : Matrix3 K :=
  ⟨⟨cx.x, cy.x, cz.x⟩, ⟨cx.y, cy.y, cz.y⟩, ⟨cx.z, cy.z, cz.z⟩⟩

/-- Rows and columns exchanged. -/
def transpose {K : Type} (m : Matrix3 K) : Matrix3 K :=
  ofColumns m.rows.x m.rows.y m.rows.z

/-- The columns of a matrix. -/
def columns {K : Type} (m : Matrix3 K) : Vec3 (Vec3 K) :=
  m.transpose.rows

theorem get_columns {K : Type} (m : Matrix3 K) (i j : Axis) :
    (m.columns.get j).get i = m.entry i j := by
  cases i <;> cases j <;> rfl

/-- Each entry replaced by its image. -/
def map {K L : Type} (f : K → L) (m : Matrix3 K) : Matrix3 L :=
  ⟨m.rows.map (Vec3.map f)⟩

/-- The entries, row after row. -/
def toList {K : Type} (m : Matrix3 K) : List K :=
  m.rows.toList.flatMap Vec3.toList

variable {K : Type} [Scalar K]

/-- The matrix with the given diagonal. -/
def diagonal (v : Vec3 K) : Matrix3 K :=
  ⟨⟨v.x, 0, 0⟩, ⟨0, v.y, 0⟩, ⟨0, 0, v.z⟩⟩

/-- The identity. -/
def one : Matrix3 K :=
  diagonal (.replicate 1)

/-- The image of a column vector. -/
def mulVec (m : Matrix3 K) (v : Vec3 K) : Vec3 K :=
  m.rows.map fun row => row.dot v

/-- The product of two matrices. -/
def mul (a b : Matrix3 K) : Matrix3 K :=
  ⟨a.rows.map fun row => b.columns.map fun column => row.dot column⟩

/-- The negated matrix. -/
def neg (m : Matrix3 K) : Matrix3 K :=
  m.map (- ·)

/-- Each column multiplied by a factor of its own. -/
def scaleColumns (m : Matrix3 K) (s : Vec3 K) : Matrix3 K :=
  ⟨m.rows.map fun row => row.zipWith (· * ·) s⟩

theorem entry_scaleColumns (m : Matrix3 K) (s : Vec3 K) (i j : Axis) :
    (m.scaleColumns s).entry i j = m.entry i j * s.get j := by
  cases i <;> cases j <;> rfl

/-- Each column divided by a factor of its own. -/
def divideColumns (m : Matrix3 K) (s : Vec3 K) : Matrix3 K :=
  ⟨m.rows.map fun row => row.zipWith (· / ·) s⟩

/-- Each row multiplied by a factor of its own. -/
def scaleRows (s : Vec3 K) (m : Matrix3 K) : Matrix3 K :=
  ⟨s.zipWith (fun a row => row.map (a * ·)) m.rows⟩

/-- Whether two matrices are entrywise near, the second one being the reference. -/
def near (relative absolute : K) (a b : Matrix3 K) : Bool :=
  (a.rows.zipWith (fun r s => (r.zipWith (Scalar.near relative absolute) s).all id) b.rows).all id

theorem near_eq_true_iff {relative absolute : K} {a b : Matrix3 K} :
    a.near relative absolute b = true ↔
      ∀ i j, Scalar.near relative absolute (a.entry i j) (b.entry i j) = true := by
  simp only [near, Vec3.all_eq_true_iff, Vec3.get_zipWith, id, entry]

/-- The Euclidean length of each column. -/
def columnNorms [Trigonometry K] (m : Matrix3 K) : Vec3 K :=
  m.columns.map fun c => Trigonometry.sqrt (c.x * c.x + c.y * c.y + c.z * c.z)

end Matrix3

end SparseVoxel

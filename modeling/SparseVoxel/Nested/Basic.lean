/-!
# Nested lists and arrays

Numbers come in as nested lists of any depth. `Nested.toTensor?` accepts exactly the lists that
are rectangular and gives their shape and their entries in row-major order; `Tensor.rows?` and
its companions read a tensor as a matrix.
-/

namespace SparseVoxel

/-- A value, or a list of nested lists. -/
inductive Nested (α : Type) where
  | leaf (value : α)
  | node (items : List (Nested α))
deriving Inhabited

/-- A rectangular array of any number of axes, entries in row-major order. -/
structure Tensor (α : Type) where
  shape : List Nat
  entries : List α

namespace Nested

variable {α β : Type}

mutual

/-- The tensor of a rectangular nested list. -/
def toTensor? : Nested α → Option (Tensor α)
  | .leaf a => some ⟨[], [a]⟩
  | .node items => (rowsToTensor? items).map fun (n, row) =>
      ⟨n :: row.shape, row.entries⟩

/-- The number of rows, their common shape, and their entries one row after the other. -/
def rowsToTensor? : List (Nested α) → Option (Nat × Tensor α)
  | [] => some (0, ⟨[], []⟩)
  | item :: rest => do
    let first ← toTensor? item
    let (n, others) ← rowsToTensor? rest
    if n = 0 ∨ others.shape = first.shape then
      some (n + 1, ⟨first.shape, first.entries ++ others.entries⟩)
    else none

end

mutual

/-- A nested list with each entry replaced. -/
def map (f : α → β) : Nested α → Nested β
  | .leaf a => .leaf (f a)
  | .node items => .node (mapItems f items)

/-- The items of a nested list with each entry replaced. -/
def mapItems (f : α → β) : List (Nested α) → List (Nested β)
  | [] => []
  | item :: rest => map f item :: mapItems f rest

end

mutual

/-- A nested list with each entry replaced by the outcome of a step that may fail, in order. -/
def mapM {m : Type → Type} [Monad m] (f : α → m β) : Nested α → m (Nested β)
  | .leaf a => do return .leaf (← f a)
  | .node items => do return .node (← mapItemsM f items)

/-- The items of a nested list with each entry replaced by an outcome. -/
def mapItemsM {m : Type → Type} [Monad m] (f : α → m β) : List (Nested α) → m (List (Nested β))
  | [] => return []
  | item :: rest => do
    let first ← mapM f item
    let others ← mapItemsM f rest
    return first :: others

end

mutual

/-- The text of a nested list in square brackets. -/
def text (write : α → String) : Nested α → String
  | .leaf a => write a
  | .node items => "[" ++ itemsText write items ++ "]"

/-- The texts of the items of a nested list, separated by commas. -/
def itemsText (write : α → String) : List (Nested α) → String
  | [] => ""
  | [item] => text write item
  | item :: rest => text write item ++ ", " ++ itemsText write rest

end

/-- The text of items in parentheses, a single one with a comma after it. -/
def tupleText (write : α → String) : List (Nested α) → String
  | [item] => "(" ++ text write item ++ ",)"
  | items => "(" ++ itemsText write items ++ ")"

end Nested

namespace Tensor

variable {α : Type}

/-- The number of entries of an array of a shape. -/
def size (shape : List Nat) : Nat :=
  shape.foldl (· * ·) 1

/-- The entries cut into rows of the given length. -/
def chunks (width count : Nat) (entries : List α) : List (List α) :=
  match count with
  | 0 => []
  | n + 1 => entries.take width :: chunks width n (entries.drop width)

/-- The rows of a tensor with exactly two axes. -/
def rows? (t : Tensor α) : Option (List (List α)) :=
  match t.shape with
  | [r, c] => some (chunks c r t.entries)
  | _ => none

/-- The entries under each index of the first axis, if there is one. -/
def outerRows? (t : Tensor α) : Option (List (List α)) :=
  match t.shape with
  | [] => none
  | n :: rest => some (chunks (size rest) n t.entries)

/-- The shape as text, a single axis with a comma after it. -/
def shapeText : List Nat → String
  | [] => "()"
  | [n] => "(" ++ toString n ++ ",)"
  | shape => "(" ++ ", ".intercalate (shape.map toString) ++ ")"

/-- The given number of nested lists of one shape, filled from the entries in order. -/
def nestItems (shape : List Nat) (count : Nat) (entries : List α) : List (Nested α) :=
  match shape with
  | [] => (entries.take count).map .leaf
  | n :: rest =>
    (chunks (n * size rest) count entries).map fun part =>
      .node (nestItems rest n part)

/-- The nested list of a tensor. -/
def nest? (t : Tensor α) : Option (Nested α) :=
  (nestItems t.shape 1 t.entries).head?

end Tensor

end SparseVoxel

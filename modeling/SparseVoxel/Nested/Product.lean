import SparseVoxel.Nested.Broadcast
import SparseVoxel.Scalar.Basic

/-!
# Products of arrays

An array with two axes is a matrix, and one with more axes is a stack of matrices, which lie along
its last two axes. The product of two stacks multiplies their matrices in pairs, the other axes
broadcasting. A single axis counts as a row in front of a product and as a column behind it.
-/

namespace SparseVoxel.Tensor

variable {α : Type}

/-- The indices of the entries of a shape, the last axis running fastest. -/
def indices : List Nat → List (List Nat)
  | [] => [[]]
  | n :: rest => (List.range n).flatMap fun i => (indices rest).map (i :: ·)

/-- The place of an index among the entries of a shape. -/
def position : List Nat → List Nat → Nat
  | _ :: rest, i :: index => i * size rest + position rest index
  | _, _ => 0

/-- The array of a shape whose entries are found in another one under indices computed from
theirs. -/
def gather (t : Tensor α) (shape : List Nat) (origin : List Nat → List Nat) : Tensor α :=
  let entries := t.entries.toArray
  ⟨shape, (indices shape).filterMap fun index => entries[position t.shape (origin index)]?⟩

/-- The first few rows and columns of an array. -/
def upperLeft? (count : Nat) (t : Tensor α) : Except Fault (Tensor α) :=
  match t.shape with
  | r :: c :: rest => .ok (t.gather (min count r :: min count c :: rest) id)
  | _ => .error .tooFewElements

/-- The first few rows of one column of an array. -/
def upperColumn? (count column : Nat) (t : Tensor α) : Except Fault (Tensor α) :=
  match t.shape with
  | r :: c :: rest =>
    if column < c then
      .ok (t.gather (min count r :: rest) fun
        | i :: index => i :: column :: index
        | [] => [])
    else .error .tooFewElements
  | _ => .error .tooFewElements

/-- The array with its axes in reverse order. -/
def reversed (t : Tensor α) : Tensor α :=
  t.gather t.shape.reverse List.reverse

/-- The entries of two arrays combined, after broadcasting them. -/
def combine? (f : α → α → α) (a b : Tensor α) : Except Fault (Tensor α) :=
  match broadcastShape? a.shape b.shape with
  | some shape => .ok ⟨shape, (a.broadcastTo shape).zipWith f (b.broadcastTo shape)⟩
  | none => .error .shapeMismatch

section Product

variable {K : Type} [Scalar K]

/-- The sum of the products of entries, taken in order and starting from zero. -/
def dot (row column : List K) : K :=
  (row.zip column).foldl (fun sum (a, b) => sum + a * b) (Scalar.ofInt 0)

/-- The product of a matrix of `n` rows and one of `k` rows and `m` columns. -/
def multiply (n k m : Nat) (a b : List K) : List K :=
  let lines := chunks m k b
  let columns := (List.range m).map fun j => lines.filterMap (·[j]?)
  (chunks k n a).flatMap fun row => columns.map (dot row)

/-- The products of two stacks of matrices, given by the shapes of the stacks and of the
matrices. -/
def products? (a b : Tensor K) (stackA stackB : List Nat) (n k m : Nat) :
    Except Fault (List Nat × List K) :=
  match broadcastShape? stackA stackB with
  | none => .error .shapeMismatch
  | some stack =>
    let count := size stack
    let left := chunks (n * k) count ((Tensor.mk (stackA ++ [n, k]) a.entries).broadcastTo
      (stack ++ [n, k]))
    let right := chunks (k * m) count ((Tensor.mk (stackB ++ [k, m]) b.entries).broadcastTo
      (stack ++ [k, m]))
    .ok (stack, (left.zipWith (multiply n k m) right).flatten)

/-- The product of two arrays. -/
def product? (a b : Tensor K) : Except Fault (Tensor K) :=
  match a.shape.reverse, b.shape.reverse with
  | [k], [k'] =>
    if k = k' then .ok ⟨[], [dot a.entries b.entries]⟩ else .error .shapeMismatch
  | [k], m :: k' :: stack =>
    if k = k' then do
      let (stack, entries) ← products? a b [] stack.reverse 1 k m
      return ⟨stack ++ [m], entries⟩
    else .error .shapeMismatch
  | k :: n :: stack, [k'] =>
    if k = k' then do
      let (stack, entries) ← products? a b stack.reverse [] n k 1
      return ⟨stack ++ [n], entries⟩
    else .error .shapeMismatch
  | k :: n :: stackA, m :: k' :: stackB =>
    if k = k' then do
      let (stack, entries) ← products? a b stackA.reverse stackB.reverse n k m
      return ⟨stack ++ [n, m], entries⟩
    else .error .shapeMismatch
  | _, _ => .error .shapeMismatch

end Product

end SparseVoxel.Tensor

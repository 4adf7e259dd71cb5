import SparseVoxel.Nested.Basic

/-!
# Broadcasting

Two shapes are compared from the last axis on; a missing axis, or one of length one, is repeated
to match the other.
-/

namespace SparseVoxel.Tensor

variable {α : Type}

/-- The shape that two shapes broadcast to, compared from the last axis on. -/
def broadcastShape? (s t : List Nat) : Option (List Nat) :=
  (go s.reverse t.reverse).map List.reverse
where
  go : List Nat → List Nat → Option (List Nat)
    | [], t => some t
    | s, [] => some s
    | m :: s, n :: t =>
      if m = n ∨ n = 1 then (go s t).map (m :: ·)
      else if m = 1 then (go s t).map (n :: ·)
      else none

/-- The entries of a tensor repeated along a larger shape with as many axes. -/
def repeatTo (source target : List Nat) (entries : List α) : List α :=
  match source, target with
  | m :: source, n :: target =>
    let parts := (chunks (size source) m entries).map (repeatTo source target)
    if m = n then parts.flatten else (List.replicate n parts.flatten).flatten
  | _, _ => entries

/-- The entries of a tensor broadcast to a shape. -/
def broadcastTo (t : Tensor α) (shape : List Nat) : List α :=
  repeatTo (List.replicate (shape.length - t.shape.length) 1 ++ t.shape) shape t.entries

end SparseVoxel.Tensor

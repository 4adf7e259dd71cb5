import Std.Data.TreeSet
import SparseVoxel.Grid.Basic

/-!
# Grouping writes by blocks

A batch of writes is taken apart by blocks through their places: the keys of the blocks are sorted,
each write gets the place of its block among them, the writes are brought into the order of these
places, and the reordered batch is cut where one place gives way to the next. The order of the
places is a stable one, so that writes to one block stay in the order of the batch.
-/

namespace SparseVoxel.Grid

/-- The different keys among some, sorted. -/
def distinctKeys (keys : List Coord) : List Coord :=
  (Std.TreeSet.ofList keys).toList

/-- The place of each key among the different ones. -/
def places (keys : List Coord) : List Nat :=
  let place := Std.TreeMap.ofList (distinctKeys keys).zipIdx
  keys.map (place.getD · 0)

/-- Compares entries by their numbers, and those of equal numbers by their indices. -/
abbrev compareNumbers : Nat × Nat → Nat × Nat → Ordering :=
  compareLex (compareOn Prod.fst) (compareOn Prod.snd)

/-- Numbers with their indices, sorted by the numbers. Equal numbers stay in their order, as their
indices are. -/
def sortWithIndices (numbers : List Nat) : List (Nat × Nat) :=
  (Std.TreeSet.ofList numbers.zipIdx compareNumbers).toList

/-- How often each number below a bound occurs. -/
def tally (bound : Nat) (numbers : List Nat) : List Nat :=
  (numbers.foldl (fun counts n => counts.modify n (· + 1)) (Array.replicate bound 0)).toList

/-- The sums of the first numbers of a list, one for each of its entries. -/
def runningSums (start : Nat) : List Nat → List Nat
  | [] => []
  | n :: ns => (start + n) :: runningSums (start + n) ns

/-- Cuts a list at positions that are counted from a number on. -/
def cutAt {α : Type} (start : Nat) : List Nat → List α → List (List α)
  | [], as => [as]
  | stop :: stops, as => as.take (stop - start) :: cutAt stop stops (as.drop (stop - start))

/-- The writes to each block that is written to, the blocks in the order of their keys. -/
def groupByBlock {V : Type} (k : Nat) (writes : List (Coord × Voxel V)) :
    List (Coord × List (Coord × Voxel V)) :=
  let keys := writes.map fun w => Box.blockKey k w.1
  let distinct := distinctKeys keys
  let order := (sortWithIndices (places keys)).map Prod.snd
  let cuts := (runningSums 0 (tally distinct.length (places keys))).dropLast
  let entries := writes.toArray
  distinct.zipWith (fun key group => (key, group.filterMap (entries[·]?))) (cutAt 0 cuts order)

end SparseVoxel.Grid

import SparseVoxel.Number

/-!
# What a setting may be given as

A setting keeps what it is given and is not looked at before it is used, so anything can stand
there: a number, a text, a list, a record, or nothing.
-/

namespace SparseVoxel

/-- Something given for a setting. -/
inductive Datum where
  | null
  | number (n : Number)
  | text (s : String)
  | list (items : List Datum)
  | record (fields : List (String × Datum))
deriving Inhabited

namespace Datum

/-- Whether something is there: a number other than zero, or what is not empty. -/
def isTrue : Datum → Bool
  | null => false
  | number n => n.toBool
  | text s => !s.isEmpty
  | list items => !items.isEmpty
  | record fields => !fields.isEmpty

end Datum

end SparseVoxel

import SparseVoxel.Number

/-!
# How an array holds numbers

The numbers of one list are put into one array, and it depends on all of them how the array holds
each. `Holding.of` decides: integers of 64 bits stay integers as long as none of them needs the
64th bit for its size while another one has a sign; such a mixture, and any list with a real
number, is held in binary64; and where an integer has more than 64 bits every number stays as it
was given.
-/

namespace SparseVoxel

/-- How an array holds numbers of different kinds. -/
inductive Holding where
  /-- All of them as integers of 64 bits. -/
  | words
  /-- All of them in binary64. -/
  | reals
  /-- Each of them as it is given. -/
  | separate
deriving DecidableEq, Repr

namespace Holding

/-- Whether a number is an integer that an array holds as a word with a sign. -/
def isSigned : Number → Bool
  | .int n => Word.isSigned Word.bound64 n
  | _ => false

/-- Whether a number is an integer that an array holds as a word without a sign. -/
def isUnsigned : Number → Bool
  | .int n => Word.isUnsigned n
  | _ => false

/-- Whether a number is an integer of more than 64 bits. -/
def isLong : Number → Bool
  | .int n => !Word.isSigned Word.bound64 n && !Word.isUnsigned n
  | _ => false

/-- Whether a number is real. -/
def isReal : Number → Bool
  | .real _ => true
  | _ => false

/-- How an array holds the given numbers. -/
def of (ns : List Number) : Holding :=
  if ns.any isLong then .separate
  else if ns.any isReal then .reals
  else if ns.any isSigned && ns.any isUnsigned then .reals
  else .words

/-- How an array holds the given integers. -/
def ofInts (ns : List Int) : Holding :=
  of (ns.map .int)

/-- Integers of 64 bits with a sign are held as such. -/
theorem ofInts_eq_words {ns : List Int}
    (h : ∀ n ∈ ns, Word.isSigned Word.bound64 n = true) : ofInts ns = .words := by
  have hlong : (ns.map Number.int).any isLong = false := by
    simp only [List.any_map, List.any_eq_false]
    intro n hn
    simp [isLong, h n hn]
  have hreal : (ns.map Number.int).any isReal = false := by
    simp [List.any_map, List.any_eq_false, isReal]
  have hunsigned : (ns.map Number.int).any isUnsigned = false := by
    simp only [List.any_map, List.any_eq_false]
    intro n hn
    simp [isUnsigned, Word.isUnsigned_of_isSigned (h n hn)]
  simp [ofInts, of, hlong, hreal, hunsigned]

/-- Integers are held in binary64 only if none is longer than 64 bits and some but not all of them
need the 64th bit for their size. -/
theorem of_ofInts_eq_reals {ns : List Int} (h : ofInts ns = .reals) :
    (∀ n ∈ ns, Word.isSigned Word.bound64 n = true ∨ Word.isUnsigned n = true) ∧
      (∃ n ∈ ns, Word.isSigned Word.bound64 n = true) ∧ ∃ n ∈ ns, Word.isUnsigned n = true := by
  have hreal : (ns.map Number.int).any isReal = false := by
    simp [List.any_map, List.any_eq_false, isReal]
  unfold ofInts of at h
  rw [hreal] at h
  split at h
  · cases h
  · next hlong =>
    rw [if_neg (by decide)] at h
    split at h
    · next hmixed =>
      simp only [List.any_map, List.any_eq_true, Bool.and_eq_true, Function.comp_apply, isSigned,
        isUnsigned, isLong, not_exists, not_and, Bool.not_eq_true'] at hmixed hlong
      refine ⟨fun n hn => ?_, hmixed⟩
      have := hlong n hn
      cases hsigned : Word.isSigned Word.bound64 n with
      | true => exact Or.inl rfl
      | false => simpa [hsigned] using this
    · cases h

end Holding

end SparseVoxel

import SparseVoxel.Proofs.Scalar.Exact

/-!
# Exact numbers with infinities

`Extended K` adds two infinities and what is no number to an ordered field. Finite values are
calculated with exactly, so `Extended.finite` carries every operation over but the division by zero.
A product is finite only if both factors are (`mul_eq_finite`), and so is the greatest of
magnitudes (`greatest_spec`). A value near a number is a number itself (`near_spec`).
-/

namespace SparseVoxel

/-- A number, an infinity, or no number at all. -/
inductive Extended (K : Type) where
  | notANumber
  | infinite (negative : Bool)
  | finite (a : K)

namespace Extended

section Operations

variable {K : Type} [Field K] [LinearOrder K] [FloorRing K]

/-- The sum; infinities of different signs have none. -/
def add : Extended K → Extended K → Extended K
  | finite a, finite b => finite (a + b)
  | finite _, infinite s => infinite s
  | infinite s, finite _ => infinite s
  | infinite s, infinite s' => if s = s' then infinite s else notANumber
  | _, _ => notANumber

/-- The negated value. -/
def neg : Extended K → Extended K
  | finite a => finite (-a)
  | infinite s => infinite !s
  | notANumber => notANumber

/-- The product of an infinity and a number, which is no number for zero. -/
def scale (s : Bool) (a : K) : Extended K :=
  if a = 0 then notANumber else infinite (s ^^ decide (a < 0))

/-- The product. -/
def mul : Extended K → Extended K → Extended K
  | finite a, finite b => finite (a * b)
  | finite a, infinite s => scale s a
  | infinite s, finite a => scale s a
  | infinite s, infinite s' => infinite (s ^^ s')
  | _, _ => notANumber

/-- The quotient; a number divided by zero is infinite, unless it is zero itself. -/
def div : Extended K → Extended K → Extended K
  | finite a, finite b =>
    if b = 0 then if a = 0 then notANumber else infinite (decide (a < 0)) else finite (a / b)
  | finite _, infinite _ => finite 0
  | infinite s, finite b => infinite (s ^^ decide (b < 0))
  | _, _ => notANumber

/-- Whether two values are equal; what is no number equals nothing. -/
def same : Extended K → Extended K → Bool
  | finite a, finite b => decide (a = b)
  | infinite s, infinite s' => s == s'
  | _, _ => false

/-- Whether a value is less than another. -/
def below : Extended K → Extended K → Bool
  | finite a, finite b => decide (a < b)
  | infinite s, finite _ => s
  | finite _, infinite s => !s
  | infinite s, infinite s' => s && !s'
  | _, _ => false

/-- A function of numbers that is zero elsewhere. -/
def ofFinite {α : Type} [Zero α] (f : K → α) : Extended K → α
  | finite a => f a
  | _ => 0

instance : Scalar (Extended K) where
  add := add
  sub a b := add a (neg b)
  mul := mul
  div := div
  neg := neg
  lt a b := a.below b = true
  le a b := (a.below b || a.same b) = true
  beq := same
  decLt _ _ := inferInstanceAs (Decidable (_ = true))
  decLe _ _ := inferInstanceAs (Decidable (_ = true))
  ofInt n := finite n
  isNaN
    | notANumber => true
    | _ => false
  isFinite
    | finite _ => true
    | _ => false
  floor := ofFinite Int.floor
  ceil := ofFinite Int.ceil
  index?
    | finite a => some ⌊a⌋
    | _ => none
  product as := as.foldl mul (finite 1)
  text _ := ""

/-- The functions of numbers, which are no numbers elsewhere. -/
instance [Trigonometry K] : Trigonometry (Extended K) where
  pi := finite Trigonometry.pi
  sqrt
    | finite a => finite (Trigonometry.sqrt a)
    | _ => notANumber
  sin
    | finite a => finite (Trigonometry.sin a)
    | _ => notANumber
  cos
    | finite a => finite (Trigonometry.cos a)
    | _ => notANumber
  atan2
    | finite a, finite b => finite (Trigonometry.atan2 a b)
    | _, _ => notANumber
  hypot
    | finite a, finite b => finite (Trigonometry.hypot a b)
    | _, _ => notANumber

end Operations

/-! ## Finite values -/

variable {K : Type} [Field K] [LinearOrder K] [FloorRing K]

/-- The number that a value is, zero if it is none. -/
def value : Extended K → K :=
  ofFinite id

theorem isFinite_iff {a : Extended K} : Scalar.isFinite a = true ↔ ∃ b, a = finite b := by
  constructor
  · intro h
    cases a with
    | finite b => exact ⟨b, rfl⟩
    | infinite s => cases h
    | notANumber => cases h
  · rintro ⟨b, rfl⟩
    rfl

theorem lt_finite_iff {a b : K} : finite a < finite b ↔ a < b :=
  decide_eq_true_iff

theorem le_finite_iff {a b : K} : finite a ≤ finite b ↔ a ≤ b := by
  show (decide (a < b) || decide (a = b)) = true ↔ a ≤ b
  rw [Bool.or_eq_true, decide_eq_true_iff, decide_eq_true_iff, le_iff_lt_or_eq]

theorem ofInt_zero : (Scalar.ofInt 0 : Extended K) = finite 0 :=
  congrArg finite Int.cast_zero

theorem finite_add (a b : K) : finite a + finite b = finite (a + b) :=
  rfl

theorem finite_mul (a b : K) : finite a * finite b = finite (a * b) :=
  rfl

theorem finite_sub (a b : K) : finite a - finite b = finite (a - b) :=
  congrArg finite (sub_eq_add_neg a b).symm

theorem add_finite_zero (a : Extended K) : a + finite 0 = a := by
  cases a with
  | finite a => exact congrArg finite (add_zero a)
  | infinite s => rfl
  | notANumber => rfl

/-- Values that are equal as numbers are the same. -/
theorem eq_of_beq {a b : Extended K} (h : (a == b) = true) : a = b := by
  cases a with
  | finite a =>
    cases b with
    | finite b => exact congrArg finite (of_decide_eq_true h)
    | infinite s => cases h
    | notANumber => cases h
  | infinite s =>
    cases b with
    | finite b => cases h
    | infinite s' => exact congrArg infinite (of_decide_eq_true h)
    | notANumber => cases h
  | notANumber => cases b <;> cases h

/-- A finite product has finite factors. -/
theorem mul_eq_finite {a b : Extended K} (h : Scalar.isFinite (a * b) = true) :
    Scalar.isFinite a = true ∧ Scalar.isFinite b = true := by
  have hscale : ∀ (s : Bool) (c : K), Scalar.isFinite (scale s c) = false := by
    intro s c
    unfold scale
    split
    · rfl
    · rfl
  cases a with
  | finite a =>
    cases b with
    | finite b => exact ⟨rfl, rfl⟩
    | infinite s => exact absurd h (Bool.eq_false_iff.mp (hscale s a))
    | notANumber => cases h
  | infinite s =>
    cases b with
    | finite b => exact absurd h (Bool.eq_false_iff.mp (hscale s b))
    | infinite s' => cases h
    | notANumber => cases h
  | notANumber => cases b <;> cases h

/-! ## Magnitudes -/

theorem abs_infinite (s : Bool) : Scalar.abs (infinite s : Extended K) = infinite false := by
  cases s <;> rfl

theorem isFinite_of_isFinite_abs {a : Extended K} (h : Scalar.isFinite (Scalar.abs a) = true) :
    Scalar.isFinite a = true := by
  cases a with
  | finite a => rfl
  | infinite s =>
    rw [abs_infinite] at h
    cases h
  | notANumber => cases h

/-- Of values none of which is infinitely small, the greatest is finite only if both are. -/
theorem greatest_spec {a b : Extended K} (ha : a ≠ infinite true) (hb : b ≠ infinite true) :
    Scalar.greatest a b ≠ infinite true ∧ (Scalar.isFinite (Scalar.greatest a b) = true →
      Scalar.isFinite a = true ∧ Scalar.isFinite b = true) := by
  cases a with
  | notANumber => cases b <;> exact ⟨nofun, nofun⟩
  | infinite s =>
    cases s with
    | true => exact absurd rfl ha
    | false =>
      cases b with
      | infinite s => cases s <;> exact ⟨nofun, nofun⟩
      | _ => exact ⟨nofun, nofun⟩
  | finite a =>
    cases b with
    | notANumber => exact ⟨nofun, nofun⟩
    | infinite s =>
      cases s with
      | true => exact absurd rfl hb
      | false => exact ⟨nofun, nofun⟩
    | finite b =>
      refine ⟨?_, fun _ => ⟨rfl, rfl⟩⟩
      unfold Scalar.greatest
      split
      · nofun
      · split
        · nofun
        · nofun

/-- A value that is not infinitely small and less than another is finite. -/
theorem isFinite_of_lt {a b : Extended K} (ha : a ≠ infinite true) (h : a < b) :
    Scalar.isFinite a = true := by
  cases a with
  | finite a => rfl
  | notANumber => cases b <;> cases h
  | infinite s =>
    cases s with
    | true => exact absurd rfl ha
    | false => cases b <;> cases h

theorem greatest_finite (a b : K) :
    Scalar.greatest (finite a) (finite b) = finite (max a b) := by
  unfold Scalar.greatest
  simp only [le_finite_iff]
  split
  · next h => rw [max_eq_left h]
  · next h =>
    have hab : a ≤ b := le_of_not_ge h
    rw [if_pos hab, max_eq_right hab]

/-- A tolerance that is exceeded by a number is a number. -/
theorem exists_finite_of_lt {t : Extended K} (ht : Scalar.ofInt 0 ≤ t) {n : K}
    (h : ¬ finite n ≤ t) : ∃ u, t = finite u ∧ 0 ≤ u ∧ u < n := by
  cases t with
  | finite u =>
    rw [le_finite_iff, not_le] at h
    rw [ofInt_zero] at ht
    exact ⟨u, rfl, le_finite_iff.mp ht, h⟩
  | infinite s =>
    cases s with
    | true => cases ht
    | false => exact absurd rfl h
  | notANumber => cases ht

variable [IsStrictOrderedRing K]

theorem abs_finite (a : K) : Scalar.abs (finite a) = finite |a| := by
  have hlt : finite a < (Scalar.ofInt 0 : Extended K) ↔ a < 0 := by
    rw [ofInt_zero, lt_finite_iff]
  show (if finite a < (Scalar.ofInt 0 : Extended K) then -finite a else finite a) = _
  by_cases h : a < 0
  · rw [if_pos (hlt.mpr h), abs_of_neg h]
    rfl
  · rw [if_neg (mt hlt.mp h), abs_of_nonneg (not_lt.mp h)]

theorem near_finite_iff {r t a b : K} :
    Scalar.near (finite r) (finite t) (finite a) (finite b) = true ↔
      |a - b| ≤ t + r * |b| ∨ a = b := by
  rw [Scalar.near_eq_true_iff, finite_sub, abs_finite, abs_finite, finite_mul, finite_add,
    le_finite_iff]
  exact or_congr (and_iff_left rfl) decide_eq_true_iff

/-- A value near a number is a number and no farther from it than the tolerance. -/
theorem near_spec {t : Extended K} (ht : Scalar.ofInt 0 ≤ t) {a : K} {b : Extended K}
    (h : Scalar.near (Scalar.ofInt 0) t (finite a) b = true) :
    Scalar.isFinite b = true ∧ Scalar.abs (finite a - b) ≤ t := by
  rw [ofInt_zero] at ht h
  rcases Scalar.near_eq_true_iff.mp h with ⟨hle, hb⟩ | heq
  · obtain ⟨b, rfl⟩ := isFinite_iff.mp hb
    rw [abs_finite b, finite_mul, zero_mul, add_finite_zero] at hle
    exact ⟨hb, hle⟩
  · rw [← eq_of_beq heq, finite_sub, abs_finite, sub_self, abs_zero]
    exact ⟨rfl, ht⟩

theorem abs_ne_infinite (a : Extended K) : Scalar.abs a ≠ infinite true := by
  cases a with
  | finite a =>
    rw [abs_finite]
    nofun
  | infinite s =>
    rw [abs_infinite]
    nofun
  | notANumber => nofun

end Extended

end SparseVoxel

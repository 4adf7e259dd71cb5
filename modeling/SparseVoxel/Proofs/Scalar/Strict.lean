import SparseVoxel.Proofs.Scalar.Extended

/-!
# Finite values of finite operands

No operation but a division makes a finite value of an infinite one, or of what is no number.
`StrictScalar` has this law, by which the operands of a finite result are seen to be finite, and
`StrictTrigonometry` has it for the sine. `LinearScalar` says that finite values are in a linear
order, and `NeutralScalar` that zero and one are neutral among them, up to the sign of zero. Exact
numbers satisfy these laws, with infinities or without them.
-/

namespace SparseVoxel

/-- Scalars of which the sum, the difference and the product are finite only if both operands are,
the quotient only if its numerator is, and the negated value exactly if the value is. -/
class StrictScalar (K : Type) [Scalar K] : Prop where
  of_add : ∀ {a b : K}, Scalar.isFinite (a + b) = true →
    Scalar.isFinite a = true ∧ Scalar.isFinite b = true
  of_sub : ∀ {a b : K}, Scalar.isFinite (a - b) = true →
    Scalar.isFinite a = true ∧ Scalar.isFinite b = true
  of_mul : ∀ {a b : K}, Scalar.isFinite (a * b) = true →
    Scalar.isFinite a = true ∧ Scalar.isFinite b = true
  of_div : ∀ {a b : K}, Scalar.isFinite (a / b) = true → Scalar.isFinite a = true
  isFinite_neg : ∀ a : K, Scalar.isFinite (-a) = Scalar.isFinite a
  /-- Values that are equal as numbers are finite together. -/
  of_beq : ∀ {a b : K}, (a == b) = true → Scalar.isFinite a = Scalar.isFinite b

/-- Scalars whose finite values are in a linear order. -/
class LinearScalar (K : Type) [Scalar K] : Prop extends OrderedScalar K where
  le_total : ∀ {a b : K}, Scalar.isFinite a = true → Scalar.isFinite b = true → a ≤ b ∨ b ≤ a
  lt_iff : ∀ {a b : K}, Scalar.isFinite a = true → Scalar.isFinite b = true → (a < b ↔ ¬ b ≤ a)

/-- Scalars of which only a finite one has a finite sine. -/
class StrictTrigonometry (K : Type) [Scalar K] [Trigonometry K] : Prop where
  of_sin : ∀ {a : K}, Scalar.isFinite (Trigonometry.sin a) = true → Scalar.isFinite a = true

/-- Scalars whose zeros and ones are neutral among finite values. -/
class NeutralScalar (K : Type) [Scalar K] : Prop where
  isFinite_one : Scalar.isFinite (Scalar.ofInt 1 : K) = true
  beq_zero : ((Scalar.ofInt 0 : K) == Scalar.ofInt 0) = true
  beq_one : ((Scalar.ofInt 1 : K) == Scalar.ofInt 1) = true
  zero_add : ∀ {z a b : K}, (z == Scalar.ofInt 0) = true → (a == b) = true → (z + a == b) = true
  zero_mul : ∀ {z a : K}, (z == Scalar.ofInt 0) = true → Scalar.isFinite a = true →
    (z * a == Scalar.ofInt 0) = true
  mul_zero : ∀ {z a : K}, Scalar.isFinite a = true → (z == Scalar.ofInt 0) = true →
    (a * z == Scalar.ofInt 0) = true
  one_mul : ∀ {a b : K}, (a == Scalar.ofInt 1) = true → (b == Scalar.ofInt 1) = true →
    (a * b == Scalar.ofInt 1) = true

namespace Scalar

variable {K : Type} [Scalar K]

theorem isFinite_abs [StrictScalar K] (a : K) : isFinite (Scalar.abs a) = isFinite a := by
  unfold Scalar.abs
  split
  · exact StrictScalar.isFinite_neg a
  · rfl

/-- A value near a finite one is finite. -/
theorem isFinite_of_near [StrictScalar K] {relative absolute a b : K} (ha : isFinite a = true)
    (h : near relative absolute a b = true) : isFinite b = true := by
  rcases near_eq_true_iff.mp h with ⟨-, hb⟩ | heq
  · exact hb
  · rw [← StrictScalar.of_beq heq, ha]

theorem isFinite_greatest [LinearScalar K] {a b : K} (ha : isFinite a = true)
    (hb : isFinite b = true) : isFinite (greatest a b) = true := by
  unfold greatest
  split
  · exact ha
  · next hba => rwa [if_pos ((LinearScalar.le_total ha hb).resolve_right hba)]

/-! ## Order of finite values -/

section Order

variable [LinearScalar K] {a b c : K}

theorem le_of_lt (ha : isFinite a = true) (hb : isFinite b = true) (h : a < b) : a ≤ b :=
  (LinearScalar.le_total ha hb).resolve_right ((LinearScalar.lt_iff ha hb).mp h)

theorem le_of_not_lt (ha : isFinite a = true) (hb : isFinite b = true) (h : ¬ a < b) : b ≤ a := by
  by_contra hle
  exact h ((LinearScalar.lt_iff ha hb).mpr hle)

theorem lt_of_lt_of_le (ha : isFinite a = true) (hb : isFinite b = true)
    (hc : isFinite c = true) (hab : a < b) (hbc : b ≤ c) : a < c :=
  (LinearScalar.lt_iff ha hc).mpr fun hca =>
    (LinearScalar.lt_iff ha hb).mp hab (OrderedScalar.le_trans hbc hca)

end Order

end Scalar

/-! ## Exact numbers -/

section Exact

variable {K : Type} [Field K] [LinearOrder K] [FloorRing K]

instance : StrictScalar K where
  of_add _ := ⟨rfl, rfl⟩
  of_sub _ := ⟨rfl, rfl⟩
  of_mul _ := ⟨rfl, rfl⟩
  of_div _ := rfl
  isFinite_neg _ := rfl
  of_beq _ := rfl

instance [Trigonometry K] : StrictTrigonometry K where
  of_sin _ := rfl

instance : NeutralScalar K where
  isFinite_one := rfl
  beq_zero := beq_self_eq_true _
  beq_one := beq_self_eq_true _
  zero_add hz hab := by
    rw [eq_of_beq hz, eq_of_beq hab, Exact.ofInt_eq, Int.cast_zero]
    exact beq_iff_eq.mpr (zero_add _)
  zero_mul hz _ := by
    rw [eq_of_beq hz, Exact.ofInt_eq, Int.cast_zero]
    exact beq_iff_eq.mpr (zero_mul _)
  mul_zero _ hz := by
    rw [eq_of_beq hz, Exact.ofInt_eq, Int.cast_zero]
    exact beq_iff_eq.mpr (mul_zero _)
  one_mul ha hb := by
    rw [eq_of_beq ha, eq_of_beq hb, Exact.ofInt_eq, Int.cast_one]
    exact beq_iff_eq.mpr (one_mul _)

instance [IsStrictOrderedRing K] : LinearScalar K where
  le_total _ _ := le_total _ _
  lt_iff _ _ := not_le.symm

end Exact

namespace Extended

variable {K : Type} [Field K] [LinearOrder K] [FloorRing K]

/-- A finite sum has finite summands. -/
theorem add_eq_finite {a b : Extended K} (h : Scalar.isFinite (a + b) = true) :
    Scalar.isFinite a = true ∧ Scalar.isFinite b = true := by
  cases a with
  | notANumber => cases b <;> cases h
  | finite a => cases b with
    | finite b => exact ⟨rfl, rfl⟩
    | _ => cases h
  | infinite s =>
    cases b with
    | infinite s' =>
      have h : Scalar.isFinite (if s = s' then infinite s else notANumber : Extended K) = true := h
      split at h <;> cases h
    | _ => cases h

theorem isFinite_neg (a : Extended K) : Scalar.isFinite (-a) = Scalar.isFinite a := by
  cases a <;> rfl

instance : StrictScalar (Extended K) where
  of_add := add_eq_finite
  of_sub {a b} h := by
    have hsub : Scalar.isFinite a = true ∧ Scalar.isFinite (-b) = true := add_eq_finite h
    rwa [isFinite_neg] at hsub
  of_mul := mul_eq_finite
  of_div {a b} h := by
    cases a with
    | finite a => rfl
    | infinite s => cases b <;> cases h
    | notANumber => cases b <;> cases h
  isFinite_neg := isFinite_neg
  of_beq h := by rw [eq_of_beq h]

instance [Trigonometry K] : StrictTrigonometry (Extended K) where
  of_sin {a} h := by
    cases a with
    | finite a => rfl
    | _ => cases h

theorem beq_self_of_isFinite {a : Extended K} (h : Scalar.isFinite a = true) : (a == a) = true := by
  obtain ⟨b, rfl⟩ := isFinite_iff.mp h
  exact decide_eq_true rfl

instance : NeutralScalar (Extended K) where
  isFinite_one := rfl
  beq_zero := beq_self_of_isFinite rfl
  beq_one := beq_self_of_isFinite rfl
  zero_add {z a b} hz hab := by
    have hsum : finite 0 + a = a := by
      cases a with
      | finite a => exact congrArg finite (zero_add a)
      | _ => rfl
    rw [eq_of_beq hz, ofInt_zero, hsum]
    exact hab
  zero_mul {z a} hz ha := by
    obtain ⟨b, rfl⟩ := isFinite_iff.mp ha
    rw [eq_of_beq hz, ofInt_zero, finite_mul, zero_mul]
    exact beq_self_of_isFinite rfl
  mul_zero {z a} ha hz := by
    obtain ⟨b, rfl⟩ := isFinite_iff.mp ha
    rw [eq_of_beq hz, ofInt_zero, finite_mul, mul_zero]
    exact beq_self_of_isFinite rfl
  one_mul {a b} ha hb := by
    have hone : ((1 : Int) : K) * (1 : Int) = (1 : Int) := by rw [Int.cast_one, mul_one]
    rw [eq_of_beq ha, eq_of_beq hb]
    exact decide_eq_true hone

/-! ## Order -/

/-- Where a value stands among all values, if it is a number. -/
def rank : Extended K → Option (WithBot (WithTop K))
  | notANumber => none
  | infinite true => some ⊥
  | infinite false => some (⊤ : WithTop K)
  | finite a => some (a : WithTop K)

theorem le_iff {a b : Extended K} :
    a ≤ b ↔ ∃ x y, rank a = some x ∧ rank b = some y ∧ x ≤ y := by
  have hle : a ≤ b ↔ (a.below b || a.same b) = true := Iff.rfl
  cases a with
  | notANumber => cases b <;> simp [hle, rank, below, same]
  | infinite s =>
    cases b with
    | infinite s' => cases s <;> cases s' <;> simp [hle, rank, below, same]
    | _ => cases s <;> simp [hle, rank, below, same]
  | finite a =>
    cases b with
    | finite b => simp [le_finite_iff, rank]
    | infinite s => cases s <;> simp [hle, rank, below, same]
    | notANumber => simp [hle, rank, below, same]

/-- A sum with what is no number is no number. -/
theorem rank_add {a b : Extended K} (h : rank a = none ∨ rank b = none) : rank (a + b) = none := by
  have hnone : ∀ {c : Extended K}, rank c = none → c = notANumber := by
    intro c hc
    cases c with
    | notANumber => rfl
    | infinite s => cases s <;> cases hc
    | finite c => cases hc
  rcases h with h | h
  · rw [hnone h]
    cases b <;> rfl
  · rw [hnone h]
    cases a <;> rfl

variable [IsStrictOrderedRing K]

instance : OrderedScalar (Extended K) where
  le_trans hab hbc := by
    obtain ⟨x, y, ha, hb, hxy⟩ := le_iff.mp hab
    obtain ⟨y', z, hb', hc, hyz⟩ := le_iff.mp hbc
    cases Option.some.inj (hb.symm.trans hb')
    exact le_iff.mpr ⟨x, z, ha, hc, hxy.trans hyz⟩
  le_self_left h := by
    obtain ⟨x, -, ha, -, -⟩ := le_iff.mp h
    exact le_iff.mpr ⟨x, x, ha, ha, le_rfl⟩
  le_self_right h := by
    obtain ⟨-, y, -, hb, -⟩ := le_iff.mp h
    exact le_iff.mpr ⟨y, y, hb, hb, le_rfl⟩
  le_self_of_isFinite h := by
    obtain ⟨b, rfl⟩ := isFinite_iff.mp h
    exact le_finite_iff.mpr le_rfl
  not_le_add {a b} hab hba hsum := by
    obtain ⟨x, -, hx, -, -⟩ := le_iff.mp hsum
    have hnone : rank a = none ∨ rank b = none := by
      cases ha : rank a with
      | none => exact Or.inl rfl
      | some x =>
        cases hb : rank b with
        | none => exact Or.inr rfl
        | some y =>
          rcases le_total x y with hxy | hyx
          · exact absurd (le_iff.mpr ⟨x, y, ha, hb, hxy⟩) hab
          · exact absurd (le_iff.mpr ⟨y, x, hb, ha, hyx⟩) hba
    rw [rank_add hnone] at hx
    cases hx
  floor_le_ceil ha hb hab := by
    obtain ⟨a, rfl⟩ := isFinite_iff.mp ha
    obtain ⟨b, rfl⟩ := isFinite_iff.mp hb
    exact (Int.floor_mono (le_finite_iff.mp hab)).trans (Int.floor_le_ceil b)

instance : LinearScalar (Extended K) where
  le_total ha hb := by
    obtain ⟨a, rfl⟩ := isFinite_iff.mp ha
    obtain ⟨b, rfl⟩ := isFinite_iff.mp hb
    exact (le_total a b).imp le_finite_iff.mpr le_finite_iff.mpr
  lt_iff ha hb := by
    obtain ⟨a, rfl⟩ := isFinite_iff.mp ha
    obtain ⟨b, rfl⟩ := isFinite_iff.mp hb
    rw [lt_finite_iff, le_finite_iff, not_le]

end Extended

end SparseVoxel

import Mathlib
import SparseVoxel.Scalar.Binary64
import SparseVoxel.Proofs.Scalar.Comparison
import SparseVoxel.Proofs.Scalar.Ordered

/-!
# Binary64 numbers as scalars with an order

`Binary64.readBits` finds the sign, mantissa and exponent that the unpacked form of a number has
(`readBits_eq`), and its floor and ceiling are those of the exact value (`floor_eq`, `ceil_eq`).
The mantissas of normal numbers have one length, so a greater rank means a greater value
(`exact_mono`). Hence binary64 numbers are scalars with an order, although their arithmetic is
rounded.
-/

namespace SparseVoxel

open Float.Model (UnpackedFloat)
open Float.Model.UnpackedFloat (Sign)

/-! ## Exact values -/

namespace Dyadic

/-- The exact value. -/
def value (d : Dyadic) : ℚ :=
  d.signedMantissa * 2 ^ d.exponent

theorem floor_eq (d : Dyadic) : d.floor = ⌊d.value⌋ := by
  unfold floor value
  cases d.exponent with
  | ofNat k =>
    show d.signedMantissa <<< k = ⌊(d.signedMantissa : ℚ) * 2 ^ (k : ℤ)⌋
    rw [Int.shiftLeft_eq, zpow_natCast]
    exact_mod_cast (Int.floor_intCast (R := ℚ) (d.signedMantissa * 2 ^ k)).symm
  | negSucc k =>
    show d.signedMantissa >>> (k + 1) = ⌊(d.signedMantissa : ℚ) * 2 ^ (Int.negSucc k)⌋
    rw [Int.shiftRight_eq_div_pow, zpow_negSucc, ← div_eq_mul_inv]
    exact_mod_cast (Rat.floor_intCast_div_natCast d.signedMantissa (2 ^ (k + 1))).symm

theorem value_neg (d : Dyadic) :
    ({ d with negative := !d.negative } : Dyadic).value = -d.value := by
  unfold value signedMantissa
  cases d.negative <;> simp

theorem ceil_eq (d : Dyadic) : d.ceil = ⌈d.value⌉ := by
  rw [ceil, floor_eq, value_neg, Int.floor_neg, neg_neg]

end Dyadic

/-! ## Readings -/

namespace Binary64

open Float.Model.UnpackedFloat

section Fields

/-- The layout of binary64 numbers. -/
abbrev format : Float.Model.Format :=
  Float.Model.Format.binary64

variable (bits : UInt64)

theorem toNat_mantissa : (@unpackMantissa format bits.toBitVec).toNat =
    (bits &&& 0xfffffffffffff).toNat := by
  rw [UInt64.toNat_and]
  show _ = bits.toNat &&& (2 ^ 52 - 1)
  rw [Nat.and_two_pow_sub_one_eq_mod]
  simp only [unpackMantissa, BitVec.toNat_cast, BitVec.extractLsb_toNat]
  rfl

theorem toNat_exponent : (@unpackExponent format bits.toBitVec).toNat =
    ((bits >>> 52) &&& 0x7ff).toNat := by
  rw [UInt64.toNat_and]
  show _ = (bits >>> 52).toNat &&& (2 ^ 11 - 1)
  rw [Nat.and_two_pow_sub_one_eq_mod, UInt64.toNat_shiftRight]
  simp only [unpackExponent, BitVec.toNat_cast, BitVec.extractLsb_toNat]
  rfl

theorem ofBitVec_sign : Sign.ofBitVec (@unpackSign format bits.toBitVec) =
    if bits >>> 63 == 1 then .negative else .positive := by
  have hnat : (@unpackSign format bits.toBitVec).toNat = (bits >>> 63).toNat := by
    simp only [unpackSign, BitVec.toNat_cast, BitVec.extractLsb_toNat, UInt64.toNat_shiftRight]
    show bits.toNat >>> 63 % 2 = bits.toNat >>> 63
    have := bits.toNat_lt
    rw [Nat.shiftRight_eq_div_pow]
    omega
  have hlt := (@unpackSign format bits.toBitVec).isLt
  unfold Sign.ofBitVec
  by_cases hone : bits >>> 63 = 1
  · rw [if_pos (beq_iff_eq.mpr hone), if_neg]
    intro hzero
    rw [hzero, hone] at hnat
    cases hnat
  · rw [if_neg (fun h => hone (beq_iff_eq.mp h)), if_pos]
    refine BitVec.eq_of_toNat_eq ?_
    have hne : (bits >>> 63).toNat ≠ 1 := fun h => hone (UInt64.toNat_inj.mp h)
    show _ = 0
    omega

/-- Whether a sign is the negative one. -/
def isNegative : Sign → Bool
  | .negative => true
  | .positive => false

/-- The reading of an unpacked number. -/
def Reading.ofUnpacked : UnpackedFloat → Reading
  | .notANumber => .notANumber
  | .infinity s => .infinite (isNegative s)
  | .zero s => .finite ⟨isNegative s, 0, -1074⟩
  | .finite s m e _ => .finite ⟨isNegative s, m, e⟩

theorem toNat_implicit (m : BitVec 52) : (1#1 ++ m).toNat = m.toNat + 0x10000000000000 := by
  rw [BitVec.toNat_append, ← Nat.shiftLeft_add_eq_or_of_lt m.isLt]
  show 1 <<< 52 + m.toNat = _
  omega

theorem readBits_eq : readBits bits = .ofUnpacked (unpack format bits.toBitVec) := by
  have hmantissa := toNat_mantissa bits
  have hexponent := toNat_exponent bits
  have hsign : (bits >>> 63 == 1) =
      isNegative (Sign.ofBitVec (@unpackSign format bits.toBitVec)) := by
    rw [ofBitVec_sign]
    cases bits >>> 63 == 1
    · rfl
    · rfl
  unfold readBits unpack
  simp only [← hmantissa, ← hexponent, hsign]
  by_cases hones : @unpackExponent format bits.toBitVec = -1#_
  · rw [if_pos hones, hones, if_pos (by decide)]
    by_cases hnone : @unpackMantissa format bits.toBitVec = 0#_
    · rw [if_pos hnone, hnone]
      rfl
    · have hnone' : (@unpackMantissa format bits.toBitVec).toNat ≠ 0 :=
        fun h => hnone (BitVec.eq_of_toNat_eq h)
      rw [if_neg hnone, if_neg hnone']
      rfl
  · have hones' : (@unpackExponent format bits.toBitVec).toNat ≠ 2047 :=
      fun h => hones (BitVec.eq_of_toNat_eq h)
    rw [if_neg hones, if_neg hones']
    by_cases hzero : @unpackExponent format bits.toBitVec = 0#_
    · have hzero' : (@unpackExponent format bits.toBitVec).toNat = 0 :=
        congrArg BitVec.toNat hzero
      rw [if_pos hzero, if_pos hzero']
      by_cases hnone : @unpackMantissa format bits.toBitVec = 0#_
      · rw [dif_pos hnone, hnone]
        rfl
      · rw [dif_neg hnone, hzero]
        rfl
    · have hzero' : (@unpackExponent format bits.toBitVec).toNat ≠ 0 :=
        fun h => hzero (BitVec.eq_of_toNat_eq h)
      rw [if_neg hzero, if_neg hzero']
      show Reading.finite _ = Reading.finite _
      rw [toNat_implicit]
      rfl

/-- The mantissa of a finite number has 53 bits, unless the exponent is the least one. -/
def Normal (m : Nat) (e : Int) : Prop :=
  m < 2 ^ 53 ∧ -1074 ≤ e ∧ (e = -1074 ∨ 2 ^ 52 ≤ m)

theorem normal_of_unpack {s : Sign} {m : Nat} {e : Int} {h : 0 < m}
    (hunpack : unpack format bits.toBitVec = .finite s m e h) :
    Normal m e := by
  have hlt : (@unpackMantissa format bits.toBitVec).toNat < 2 ^ 52 := BitVec.isLt _
  unfold unpack at hunpack
  simp only at hunpack
  split at hunpack
  · split at hunpack
    · cases hunpack
    · cases hunpack
  · split at hunpack
    · next hzero =>
      split at hunpack
      · cases hunpack
      · rw [hzero] at hunpack
        cases hunpack
        exact ⟨by omega, by decide, Or.inl rfl⟩
    · next hzero =>
      cases hunpack
      rw [toNat_implicit]
      have hpos : (@unpackExponent format bits.toBitVec).toNat ≠ 0 :=
        fun h => hzero (BitVec.eq_of_toNat_eq h)
      have hbias : (format.exponentBias : Int) + (52 : Nat) = 1075 := rfl
      refine ⟨by omega, by omega, Or.inr (by omega)⟩

end Fields

/-! ## Order of values -/

theorem magnitude_mono {m m' : Nat} {e e' : Int} (h : Normal m e) (h' : Normal m' e')
    (hle : e < e' ∨ e = e' ∧ m ≤ m') : (m : ℚ) * 2 ^ e ≤ m' * 2 ^ e' := by
  rcases hle with hlt | ⟨rfl, hle⟩
  · -- the mantissa of the greater exponent is at least half of what the other one can be
    obtain ⟨hm, hmin, -⟩ := h
    have hm' : 2 ^ 52 ≤ m' := h'.2.2.resolve_left (by omega)
    calc (m : ℚ) * 2 ^ e ≤ 2 ^ 53 * 2 ^ e :=
          mul_le_mul_of_nonneg_right (by exact_mod_cast hm.le) (by positivity)
      _ = 2 ^ 52 * 2 ^ (e + 1) := by
          rw [zpow_add_one₀ (by norm_num)]
          ring
      _ ≤ 2 ^ 52 * 2 ^ e' :=
          mul_le_mul_of_nonneg_left (zpow_le_zpow_right₀ (by norm_num) (by omega)) (by positivity)
      _ ≤ m' * 2 ^ e' := mul_le_mul_of_nonneg_right (by exact_mod_cast hm') (by positivity)
  · exact mul_le_mul_of_nonneg_right (by exact_mod_cast hle) (by positivity)

/-- The exact value of an unpacked number, zero where it has none. -/
def exact : UnpackedFloat → ℚ
  | .finite .positive m e _ => m * 2 ^ e
  | .finite .negative m e _ => -(m * 2 ^ e)
  | _ => 0

theorem magnitude_nonneg (m : Nat) (e : Int) : (0 : ℚ) ≤ m * 2 ^ e := by
  positivity

theorem fst_le_of_toLex_le {a b : ℤ} {p q : ℤ ×ₗ ℤ} (h : toLex (a, p) ≤ toLex (b, q)) :
    a ≤ b := by
  rcases Prod.Lex.toLex_le_toLex.mp h with hlt | ⟨heq, -⟩
  · exact hlt.le
  · exact heq.le

theorem snd_le_of_toLex_le {a : ℤ} {p q : ℤ ×ₗ ℤ} (h : toLex (a, p) ≤ toLex (a, q)) :
    p ≤ q := by
  rcases Prod.Lex.toLex_le_toLex.mp h with hlt | ⟨-, hle⟩
  · exact absurd hlt (lt_irrefl a)
  · exact hle

/-- Of two numbers other than zero the one of greater rank has the greater value. -/
theorem exact_mono_finite {s s' : Sign} {m m' : Nat} {e e' : Int} {hm : 0 < m} {hm' : 0 < m'}
    {x y : Unpacked.Rank} (h : Normal m e) (h' : Normal m' e')
    (hx : Unpacked.rank (.finite s m e hm) = some x)
    (hy : Unpacked.rank (.finite s' m' e' hm') = some y) (hle : x ≤ y) :
    exact (.finite s m e hm) ≤ exact (.finite s' m' e' hm') := by
  cases s <;> cases s' <;> cases hx <;> cases hy
  · -- of two negative numbers the greater one has the lesser magnitude
    refine neg_le_neg (magnitude_mono h' h ?_)
    have hlex := snd_le_of_toLex_le hle
    rw [Prod.Lex.toLex_le_toLex] at hlex
    omega
  · exact (neg_nonpos.mpr (magnitude_nonneg m e)).trans (magnitude_nonneg m' e')
  · have hsign := fst_le_of_toLex_le hle
    omega
  · refine magnitude_mono h h' ?_
    have hlex := snd_le_of_toLex_le hle
    rw [Prod.Lex.toLex_le_toLex] at hlex
    omega

theorem exact_mono {a b : Float} (ha : a.isFinite = true) (hb : b.isFinite = true) (h : a ≤ b) :
    exact a.toModel.unpack ≤ exact b.toModel.unpack := by
  obtain ⟨x, y, hx, hy, hle⟩ := Float.le_iff.mp h
  have hna : ∀ {s m e hm}, a.toModel.unpack = .finite s m e hm → Normal m e :=
    normal_of_unpack a.toModel.toBits
  have hnb : ∀ {s m e hm}, b.toModel.unpack = .finite s m e hm → Normal m e :=
    normal_of_unpack b.toModel.toBits
  have ha : a.toModel.unpack.isFinite = true := ha
  have hb : b.toModel.unpack.isFinite = true := hb
  generalize a.toModel.unpack = u at *
  generalize b.toModel.unpack = v at *
  cases u with
  | notANumber => cases ha
  | infinity s => cases ha
  | zero s =>
    cases v with
    | notANumber => cases hb
    | infinity s' => cases hb
    | zero s' => exact le_rfl
    | finite s' m' e' hm' =>
      cases s'
      · cases hx
        cases hy
        have hsign := fst_le_of_toLex_le hle
        omega
      · exact magnitude_nonneg m' e'
  | finite s m e hm =>
    cases v with
    | notANumber => cases hb
    | infinity s' => cases hb
    | zero s' =>
      cases s
      · exact neg_nonpos.mpr (magnitude_nonneg m e)
      · cases hx
        cases hy
        have hsign := fst_le_of_toLex_le hle
        omega
    | finite s' m' e' hm' => exact exact_mono_finite (hna rfl) (hnb rfl) hx hy hle

/-- The reading of a finite number has the exact value. -/
theorem read_of_isFinite {a : Float} (h : a.isFinite = true) :
    ∃ d, read a = .finite d ∧ d.value = exact a.toModel.unpack := by
  have hread : read a = .ofUnpacked a.toModel.unpack := readBits_eq a.toModel.toBits
  have h : a.toModel.unpack.isFinite = true := h
  rw [hread]
  generalize a.toModel.unpack = u at h ⊢
  cases u with
  | notANumber => cases h
  | infinity s => cases h
  | zero s =>
    refine ⟨_, rfl, ?_⟩
    simp [Dyadic.value, Dyadic.signedMantissa, exact]
  | finite s m e hm =>
    refine ⟨_, rfl, ?_⟩
    cases s <;> simp [Dyadic.value, Dyadic.signedMantissa, exact, isNegative]

theorem floor_eq {a : Float} (h : a.isFinite = true) :
    integer Dyadic.floor a = ⌊exact a.toModel.unpack⌋ := by
  obtain ⟨d, hread, hvalue⟩ := read_of_isFinite h
  rw [integer, hread, ← hvalue]
  exact d.floor_eq

theorem ceil_eq {a : Float} (h : a.isFinite = true) :
    integer Dyadic.ceil a = ⌈exact a.toModel.unpack⌉ := by
  obtain ⟨d, hread, hvalue⟩ := read_of_isFinite h
  rw [integer, hread, ← hvalue]
  exact d.ceil_eq

/-- A sum with what is no number is no number. -/
theorem rank_add {a b : Float} (h : Unpacked.rank a.toModel.unpack = none ∨
    Unpacked.rank b.toModel.unpack = none) :
    Unpacked.rank (a + b).toModel.unpack = none := by
  have hnone : ∀ {u : UnpackedFloat}, Unpacked.rank u = none → u = .notANumber := by
    intro u hu
    cases u with
    | notANumber => rfl
    | infinity s => cases s <;> cases hu
    | zero s => cases hu
    | finite s m e hm => cases s <;> cases hu
  have hadd : UnpackedFloat.add format a.toModel.unpack b.toModel.unpack = .notANumber := by
    rcases h with h | h
    · rw [hnone h]
      rfl
    · rw [hnone h]
      cases a.toModel.unpack <;> rfl
  have hsum : (a + b).toModel = Float.Model.pack .notANumber :=
    congrArg Float.Model.pack hadd
  rw [hsum]
  decide

theorem sub_unpacked_self {u : UnpackedFloat} (h : u.isFinite = true) :
    UnpackedFloat.sub format u u = .zero .positive := by
  cases u with
  | notANumber => cases h
  | infinity s => cases h
  | zero s => cases s <;> rfl
  | finite s m e hm =>
    simp only [UnpackedFloat.sub, UnpackedFloat.normalize, Int.sub_self]
    rfl

/-- A finite number less itself is zero. -/
theorem sub_self_of_isFinite {a : Float} (h : a.isFinite = true) :
    a - a = .ofModel (.pack (.zero .positive)) :=
  congrArg (fun u => Float.ofModel (.pack u)) (sub_unpacked_self h)

end Binary64

instance : OrderedScalar Float where
  le_trans hab hbc := Float.le_trans hab hbc
  le_self_left {a b} h := by
    obtain ⟨x, -, ha, -, -⟩ := Float.le_iff.mp h
    exact Float.le_iff.mpr ⟨x, x, ha, ha, le_rfl⟩
  le_self_right {a b} h := by
    obtain ⟨-, y, -, hb, -⟩ := Float.le_iff.mp h
    exact Float.le_iff.mpr ⟨y, y, hb, hb, le_rfl⟩
  le_self_of_isFinite {a} h := by
    obtain ⟨x, hx⟩ := Unpacked.exists_rank_of_isFinite h
    exact Float.le_iff.mpr ⟨x, x, hx, hx, le_rfl⟩
  not_le_add {a b} hab hba := by
    intro hsum
    obtain ⟨x, -, hx, -, -⟩ := Float.le_iff.mp hsum
    rw [Binary64.rank_add (Float.rank_eq_none_of_not_le hab hba)] at hx
    cases hx
  floor_le_ceil {a b} ha hb hab := by
    show Binary64.integer Dyadic.floor a ≤ Binary64.integer Dyadic.ceil b
    rw [Binary64.floor_eq ha, Binary64.ceil_eq hb]
    exact (Int.floor_mono (Binary64.exact_mono ha hb hab)).trans (Int.floor_le_ceil _)

instance : SteadyScalar Float where
  mul_sub_self h := by
    rw [Binary64.sub_self_of_isFinite h]
    decide +kernel
  ceil_le {a} h := by
    show Binary64.integer Dyadic.ceil a ≤ Binary64.integer Dyadic.floor a + 1
    rw [Binary64.floor_eq h, Binary64.ceil_eq h]
    exact Int.ceil_le_floor_add_one _

end SparseVoxel

import SparseVoxel.Proofs.Scalar.Binary64

/-!
# Rounding of integers

An integer of at most 53 bits is not rounded (`read_ofInt_of_lt`). One of more bits is rounded to a
number whose mantissa has all its bits and whose exponent is not negative, so the number is an
integer again (`exists_read_ofInt`); it is finite as long as the exponent stays below the greatest
one. The bits of a number with all bits of the mantissa are unpacked to what was packed into them
(`unpack_pack`).
-/

namespace SparseVoxel.Binary64

open Float.Model Float.Model.UnpackedFloat

/-! ## Mantissas -/

theorem mantissa_shiftRight (em : ExtendedMantissa) (k : Nat) :
    (em >>> k).mantissa = em.mantissa / 2 ^ k := by
  induction k with
  | zero => exact (Nat.div_one _).symm
  | succ k ih =>
    show (em >>> k).mantissa / 2 = _
    rw [ih, Nat.div_div_eq_div_mul, Nat.pow_succ]

theorem roundedMantissa_bounds (em : ExtendedMantissa) :
    em.mantissa ≤ em.roundedMantissa ∧ em.roundedMantissa ≤ em.mantissa + 1 := by
  obtain ⟨m, round, sticky⟩ := em
  cases round <;> cases sticky <;>
    simp only [ExtendedMantissa.roundedMantissa, ExtendedMantissa.accuracy,
      Accuracy.roundToNearestEven] <;>
    omega

/-- A mantissa with `k` bits too many is shifted by them. -/
theorem shiftToTargetExponent_eq {m k : Nat} {e : Int} (hlog : m.log2 = 52 + k)
    (he : -1074 ≤ e + k) : shiftToTargetExponent format m e .exact =
      ((⟨m, false, false⟩ : ExtendedMantissa) >>> k, e + k) := by
  have htarget : format.targetExponent (totalExponent m e) = e + k := by
    simp only [Format.targetExponent, totalExponent, hlog]
    show max (((52 + k : Nat) : Int) + 1 + e - 53) (-1074) = e + k
    omega
  have hshift : (e + k - e).toNat = k := by omega
  rw [shiftToTargetExponent, htarget, shiftToExponent, hshift]
  rfl

theorem div_two_pow_bounds {m k : Nat} (hlog : m.log2 = 52 + k) :
    2 ^ 52 ≤ m / 2 ^ k ∧ m / 2 ^ k < 2 ^ 53 := by
  have hm : m ≠ 0 := by
    rintro rfl
    rw [Nat.log2_zero] at hlog
    omega
  rw [Nat.le_div_iff_mul_le (Nat.two_pow_pos k), Nat.div_lt_iff_lt_mul (Nat.two_pow_pos k),
    ← Nat.pow_add, ← Nat.pow_add, ← hlog, show 53 + k = m.log2 + 1 by omega]
  exact ⟨Nat.log2_self_le hm, Nat.lt_log2_self⟩

theorem log2_shiftLeft {n : Nat} (hn : n ≠ 0) (k : Nat) : (n <<< k).log2 = n.log2 + k := by
  induction k with
  | zero => rfl
  | succ k ih =>
    have hk : n <<< k ≠ 0 := by simp [Nat.shiftLeft_eq, hn]
    rw [Nat.shiftLeft_succ, Nat.log2_two_mul hk, ih]
    rfl

theorem log2_of_bounds {r : Nat} (hlow : 2 ^ 52 ≤ r) (hhigh : r < 2 ^ 53) : r.log2 = 52 :=
  (Nat.log2_eq_iff (by omega)).mpr ⟨hlow, hhigh⟩

/-- A mantissa with too many bits is rounded to one that has the right number of them. -/
theorem exists_roundWithAccuracy (s : Sign) {m k : Nat} {e : Int} (hlog : m.log2 = 52 + k)
    (he : -1074 ≤ e + k) : ∃ m' e', ∃ h : 0 < m',
      roundWithAccuracy format s m e .exact = .finite s m' e' h ∧ m'.log2 = 52 ∧
        e + k ≤ e' ∧ e' ≤ e + k + 1 := by
  obtain ⟨hlow, hhigh⟩ := div_two_pow_bounds hlog
  have hbounds := roundedMantissa_bounds ((⟨m, false, false⟩ : ExtendedMantissa) >>> k)
  rw [mantissa_shiftRight] at hbounds
  unfold roundWithAccuracy
  rw [shiftToTargetExponent_eq hlog he]
  simp only
  generalize ((⟨m, false, false⟩ : ExtendedMantissa) >>> k).roundedMantissa = r at hbounds ⊢
  obtain ⟨hle, hge⟩ : m / 2 ^ k ≤ r ∧ r ≤ m / 2 ^ k + 1 := hbounds
  -- rounding up may give one bit more, which takes a second shift
  obtain ⟨j, hr, hj⟩ : ∃ j, r.log2 = 52 + j ∧ j ≤ 1 := by
    rcases Nat.lt_or_ge r (2 ^ 53) with hlt | hlimit
    · exact ⟨0, log2_of_bounds (hlow.trans hle) hlt, Nat.zero_le 1⟩
    · obtain rfl : r = 2 ^ 53 := by omega
      exact ⟨1, Nat.log2_two_pow, Nat.le_refl 1⟩
  obtain ⟨hlow', hhigh'⟩ := div_two_pow_bounds hr
  have hpos : 0 < r / 2 ^ j := by omega
  rw [shiftToTargetExponent_eq hr (by omega)]
  simp only [mantissa_shiftRight]
  exact ⟨r / 2 ^ j, e + k + j, hpos, dif_neg hpos.ne', log2_of_bounds hlow' hhigh', by omega,
    by omega⟩

theorem shiftRight_mul_two_pow (m k : Nat) :
    (⟨m * 2 ^ k, false, false⟩ : ExtendedMantissa) >>> k = ⟨m, false, false⟩ := by
  induction k generalizing m with
  | zero =>
    rw [Nat.pow_zero, Nat.mul_one]
    rfl
  | succ k ih =>
    have hdouble : m * 2 ^ (k + 1) = 2 * m * 2 ^ k := by
      rw [Nat.pow_succ]
      ring
    show ((⟨m * 2 ^ (k + 1), false, false⟩ : ExtendedMantissa) >>> k).shiftRightOne = _
    rw [hdouble, ih]
    simp [ExtendedMantissa.shiftRightOne]

/-- A mantissa whose surplus bits are all zero is not rounded. -/
theorem roundWithAccuracy_mul_two_pow (s : Sign) {m k : Nat} {e : Int} (hm : 0 < m)
    (hlog : m.log2 = 52) (he : -1074 ≤ e + k) :
    roundWithAccuracy format s (m * 2 ^ k) e .exact = .finite s m (e + k) hm := by
  have hsurplus : (m * 2 ^ k).log2 = 52 + k := by
    rw [← Nat.shiftLeft_eq, log2_shiftLeft hm.ne', hlog]
  have hrest : shiftToTargetExponent format m (e + k) .exact = (⟨m, false, false⟩, e + k) := by
    rw [shiftToTargetExponent_eq (k := 0) hlog (by omega)]
    exact Prod.ext rfl (Int.add_zero _)
  unfold roundWithAccuracy
  rw [shiftToTargetExponent_eq hsurplus he]
  simp only [shiftRight_mul_two_pow]
  show (let (em, e') := shiftToTargetExponent format m (e + k) .exact
    if h : em.mantissa = 0 then UnpackedFloat.zero s
    else .finite s em.mantissa e' (Nat.pos_of_ne_zero h)) = _
  rw [hrest]
  exact dif_neg hm.ne'

/-! ## Bits -/

theorem unpackSign_packComponents {spec : Format} {sign : Sign}
    {exponent : BitVec spec.exponentBits} {mantissa : BitVec spec.mantissaBitsWithoutImplicit} :
    unpackSign (packComponents spec sign exponent mantissa) = sign.toBitVec := by
  ext i hi
  obtain rfl : i = 0 := by omega
  simp [unpackSign, packComponents, BitVec.getLsbD_append, BitVec.getElem_append]

theorem ofBitVec_toBitVec (s : Sign) : Sign.ofBitVec s.toBitVec = s := by
  cases s <;> rfl

/-- A number whose mantissa has all its bits is found again in its bits. -/
theorem unpack_pack {s : Sign} {m : Nat} {e : Int} {h : 0 < m} (hlog : m.log2 = 52)
    (hmin : -1074 ≤ e) (hmax : e ≤ 971) :
    UnpackedFloat.unpack format (UnpackedFloat.pack format (.finite s m e h)) =
      .finite s m e h := by
  generalize hbiased : (e + (1023 : Nat) + (52 : Nat)).toNat = biased
  have hpack : UnpackedFloat.pack format (.finite s m e h) =
      packComponents format s (BitVec.ofNat 11 biased) (BitVec.ofNat 52 m) := by
    have hfinite : ¬ 2 ^ 11 ≤ (e + (1023 : Nat) + (52 : Nat)).toNat + 1 := by omega
    subst hbiased
    refine (if_neg hfinite).trans (if_pos ?_)
    show m.log2 + 1 = 53
    omega
  have htoNat : (BitVec.ofNat 11 biased).toNat = biased := Nat.mod_eq_of_lt (by omega)
  have hne : ∀ c : BitVec 11, biased ≠ c.toNat → BitVec.ofNat 11 biased ≠ c := by
    rintro c hc rfl
    exact hc htoNat.symm
  -- neither the exponent of infinity nor that of a subnormal number
  have hnotOnes : BitVec.ofNat 11 biased ≠ -1#11 := hne _ (show biased ≠ 2047 by omega)
  have hnotZero : BitVec.ofNat 11 biased ≠ 0#11 := hne _ (show biased ≠ 0 by omega)
  obtain ⟨hlow, hhigh⟩ := (Nat.log2_eq_iff h.ne').mp hlog
  have hmantissa : (1#1 ++ BitVec.ofNat 52 m).toNat = m := by
    rw [toNat_implicit, BitVec.toNat_ofNat]
    omega
  rw [hpack]
  unfold UnpackedFloat.unpack
  simp only [unpackMantissa_packComponents, unpackExponent_packComponents,
    unpackSign_packComponents, ofBitVec_toBitVec]
  rw [if_neg hnotOnes, if_neg hnotZero]
  congr 1
  rw [htoNat]
  show (biased : Int) - ((1023 : Nat) + (52 : Nat)) = e
  omega

/-! ## Integers -/

/-- An integer of at most 53 bits gets a mantissa with all bits and is not rounded. -/
theorem ofNat_eq {n j : Nat} (hlog : n.log2 + j = 52) (hm : 0 < n * 2 ^ j) :
    UnpackedFloat.ofNat format n = .finite .positive (n * 2 ^ j) (-j) hm := by
  have hn : 0 < n := Nat.pos_of_mul_pos_right hm
  have htarget : format.targetExponent (totalExponent n 0) = -j := by
    simp only [Format.targetExponent, totalExponent]
    show max ((n.log2 : Int) + 1 + 0 - 53) (-1074) = -j
    omega
  have hdecrease : decreaseExponent n 0 (-j) = (n * 2 ^ j, -(j : Int)) := by
    have hshift : (0 - -(j : Int)).toNat = j := by omega
    rw [decreaseExponent, hshift, Nat.shiftLeft_eq, Int.zero_sub]
  have hexact := roundWithAccuracy_mul_two_pow .positive (k := 0) (e := -j) hm
    (by rw [← Nat.shiftLeft_eq, log2_shiftLeft hn.ne', hlog]) (by omega)
  have hgt : compare (n : Int) 0 = .gt := Int.compare_eq_gt.mpr (by omega)
  unfold UnpackedFloat.ofNat UnpackedFloat.ofInt UnpackedFloat.normalize
  rw [hgt]
  show UnpackedFloat.round format .positive n 0 = _
  simp only [UnpackedFloat.round, htarget, hdecrease]
  simpa using hexact

theorem unpack_mul (a b : Float) : (a * b).toModel.unpack =
    unpack format (pack format (UnpackedFloat.mul format a.toModel.unpack b.toModel.unpack)) :=
  rfl

theorem unpack_toFloat (n : UInt64) : n.toFloat.toModel.unpack =
    unpack format (pack format (UnpackedFloat.ofNat format n.toNat)) :=
  rfl

theorem unpack_one : (Float.ofBits 0x3FF0000000000000).toModel.unpack =
    .finite .positive (2 ^ 52) (-52) (by decide) :=
  rfl

/-- An integer of at most 53 bits is not rounded. -/
theorem read_ofInt_of_lt {n : Nat} (hn : 0 < n) (hlt : n < 2 ^ 53) :
    ∃ count, read (ofInt n) = .finite count ∧ count.floor = n := by
  have hlog : n.log2 < 53 := (Nat.log2_lt hn.ne').mpr hlt
  obtain ⟨j, hj⟩ := Nat.exists_eq_add_of_le (show n.log2 ≤ 52 by omega)
  have hm : 0 < n * 2 ^ j := Nat.mul_pos hn (Nat.two_pow_pos j)
  have hlogm : (n * 2 ^ j).log2 = 52 := by
    rw [← Nat.shiftLeft_eq, log2_shiftLeft hn.ne', hj]
  have hpacked : unpack format (pack format (.finite .positive (n * 2 ^ j) (-j) hm)) =
      .finite .positive (n * 2 ^ j) (-j) hm :=
    unpack_pack hlogm (by omega) (by omega)
  have hofInt : ofInt n = n.toUInt64.toFloat * Float.ofBits 0x3FF0000000000000 := by
    have hsign : ¬ (n : Int) < 0 := by omega
    rw [ofInt, if_neg hsign]
    exact dif_pos ⟨hlt, Nat.zero_le 22⟩
  have hword : n.toUInt64.toNat = n := by
    show n % 2 ^ 64 = n
    omega
  have hproduct : UnpackedFloat.mul format (.finite .positive (n * 2 ^ j) (-j) hm)
      (.finite .positive (2 ^ 52) (-52) (by decide)) =
        .finite .positive (n * 2 ^ j) (-j) hm := by
    have hexact := roundWithAccuracy_mul_two_pow .positive (k := 52) (e := -j + -52) hm hlogm
      (by omega)
    have he : (-j + -52 + (52 : Nat) : Int) = -j := by omega
    simp only [he] at hexact
    exact hexact
  have hread : read (ofInt n) = .ofUnpacked (ofInt n).toModel.unpack :=
    readBits_eq (ofInt n).toModel.toBits
  refine ⟨⟨false, n * 2 ^ j, -j⟩, ?_, ?_⟩
  · rw [hread, hofInt, unpack_mul, unpack_toFloat, unpack_one, hword, ofNat_eq hj.symm hm, hpacked,
      hproduct, hpacked]
    rfl
  · have hvalue : (⟨false, n * 2 ^ j, -j⟩ : Dyadic).value = n := by
      show (((n * 2 ^ j : Nat) : Int) : ℚ) * 2 ^ (-j : Int) = n
      rw [zpow_neg, zpow_natCast]
      push_cast
      exact mul_inv_cancel_right₀ (by positivity) _
    rw [Dyadic.floor_eq, hvalue]
    exact Int.floor_natCast n

/-- An integer of more than 53 bits is rounded to an integer. -/
theorem exists_read_ofInt {n : Nat} (hlow : 53 ≤ n.log2) (hhigh : n.log2 ≤ 1000) :
    ∃ m e, 0 < m ∧ 0 ≤ e ∧ read (ofInt n) = .finite ⟨false, m, e⟩ := by
  have hn : n ≠ 0 := by
    rintro rfl
    rw [Nat.log2_zero] at hlow
    omega
  have hlarge : ¬ (n < 2 ^ 53 ∧ 0 ≤ 22) := by
    rintro ⟨hlt, -⟩
    have := (Nat.log2_lt hn).mpr hlt
    omega
  have hofInt : ofInt n = .ofModel (.ofScientific n 0) := by
    have hsign : ¬ (n : Int) < 0 := by omega
    rw [ofInt, if_neg hsign]
    exact dif_neg hlarge
  obtain ⟨k, hk⟩ := Nat.exists_eq_add_of_le hlow
  have hlog : (n <<< 53 * 1).log2 = 52 + (k + 54) := by
    rw [Nat.mul_one, log2_shiftLeft hn]
    omega
  obtain ⟨m, e, hm, hround, hlogm, hle, hge⟩ :=
    exists_roundWithAccuracy .positive (e := -53) hlog (by omega)
  have hunpacked : UnpackedFloat.ofScientific format n 0 = .finite .positive m e hm := by
    have hexponent : ¬ (0 : Int) < -((2 ^ 11 : Int) + n.log2) := by omega
    refine (dif_neg hn).trans ?_
    rw [if_neg (by decide), if_neg hexponent, if_pos (Int.le_refl 0)]
    exact hround
  refine ⟨m, e, hm, by omega, ?_⟩
  rw [hofInt]
  show readBits (UInt64.ofBitVec
    (UnpackedFloat.pack format (UnpackedFloat.ofScientific format n 0))) = _
  rw [readBits_eq, hunpacked]
  show Reading.ofUnpacked (UnpackedFloat.unpack format (UnpackedFloat.pack format _)) = _
  rw [unpack_pack hlogm (by omega) (by omega)]
  rfl

/-- An integer of 54 to 64 bits stays positive when it is rounded. -/
theorem truncate_ofInt_pos {n : Int} (hlow : 2 ^ 53 ≤ n) (hhigh : n < 2 ^ 64) :
    0 < integer Dyadic.truncate (ofInt n) := by
  obtain ⟨n, rfl⟩ := Int.eq_ofNat_of_zero_le (show 0 ≤ n by omega)
  have hn : n ≠ 0 := by omega
  have hlog : 53 ≤ n.log2 := (Nat.le_log2 hn).mpr (by omega)
  have hlog' : n.log2 < 64 := (Nat.log2_lt hn).mpr (by omega)
  obtain ⟨m, e, hm, he, hread⟩ := exists_read_ofInt hlog (by omega)
  obtain ⟨e, rfl⟩ := Int.eq_ofNat_of_zero_le he
  rw [integer, hread]
  show 0 < (m : Int) <<< e
  rw [Int.shiftLeft_eq]
  positivity

theorem truncate_ofInt_zero : integer Dyadic.truncate (ofInt 0) = 0 := by
  decide +kernel

end SparseVoxel.Binary64

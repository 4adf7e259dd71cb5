import SparseVoxel.Proofs.Affine.Parts
import SparseVoxel.Proofs.Euler

/-!
# Which matrices are split

Over the real numbers and without a tolerance, an affine matrix is split if and only if its columns
are nonzero and orthogonal, and of equal lengths unless its linear block is diagonal
(`Matrix3.Separable`, `ofMatrix?_iff_separable`). A choice of signs is accepted if it leaves a
rotation (`accepts_of_proper`); orthogonal columns leave one for some choice (`exists_proper`), and
a diagonal block for the signs of its diagonal, with no turn at all. Conversely the parts of a split
rebuild the matrix, so its columns are the scaled columns of a rotation. Excepted are matrices whose
first column is so near to the last axis, without lying on it, that the angles are not recovered.
-/

namespace SparseVoxel

namespace Matrix3

def IsDiagonal (m : Matrix3 ℝ) : Prop :=
  ∀ i j, i ≠ j → m.entry i j = 0

def diagonalEntries (m : Matrix3 ℝ) : Vec3 ℝ :=
  ⟨m.rows.x.x, m.rows.y.y, m.rows.z.z⟩

/-- The columns are those of a rotation scaled by factors other than zero, and these are equal up
to the sign unless nothing is turned. -/
structure Separable (m : Matrix3 ℝ) : Prop where
  columns_ne_zero : ∀ i, m.columns.get i ≠ .replicate 0
  orthogonal : ∀ i j, i ≠ j → (m.columns.get i).dot (m.columns.get j) = 0
  uniform_or_diagonal : (∀ i j, m.columnNorms.get i = m.columnNorms.get j) ∨ m.IsDiagonal

/-- The first column is zero, or lies on the last axis, or is not too near to it. -/
def ClearsGimbal (m : Matrix3 ℝ) : Prop :=
  m.columns.x = .replicate 0 ∨
    Trigonometry.hypot m.rows.x.x m.rows.y.x / m.columnNorms.x = 0 ∨
    1 / 10 ^ 10 < Trigonometry.hypot m.rows.x.x m.rows.y.x / m.columnNorms.x

variable {m : Matrix3 ℝ} {s : Vec3 ℝ}

theorem get_diagonalEntries (m : Matrix3 ℝ) (i : Axis) : m.diagonalEntries.get i = m.entry i i := by
  cases i <;> rfl

theorem isDiagonal_diagonal (v : Vec3 ℝ) : (diagonal v).IsDiagonal := by
  intro i j hij
  rw [entry_diagonal, if_neg hij]

theorem diagonalEntries_diagonal (v : Vec3 ℝ) : (diagonal v).diagonalEntries = v :=
  Vec3.ext_get fun i => by rw [get_diagonalEntries, entry_diagonal, if_pos rfl]

theorem IsDiagonal.dot_self (h : m.IsDiagonal) (i : Axis) :
    (m.columns.get i).dot (m.columns.get i) = m.entry i i * m.entry i i := by
  rw [dot_columns]
  cases i
  · rw [h .y .x nofun, h .z .x nofun]
    ring
  · rw [h .x .y nofun, h .z .y nofun]
    ring
  · rw [h .x .z nofun, h .y .z nofun]
    ring

theorem IsDiagonal.divideColumns_eq_one (h : m.IsDiagonal)
    (hne : ∀ i, m.diagonalEntries.get i ≠ 0) : m.divideColumns m.diagonalEntries = one := by
  refine ext_entry fun i j => ?_
  rw [entry_divideColumns, entry_one, get_diagonalEntries]
  split
  · next hij =>
    rw [hij, div_self]
    rw [← get_diagonalEntries]
    exact hne j
  · next hij => rw [h i j hij, zero_div]

/-! ## Scales that leave a rotation -/

/-- Factors that are the lengths of the columns, up to the sign. -/
def IsScale (m : Matrix3 ℝ) (s : Vec3 ℝ) : Prop :=
  ∀ i, |s.get i| = m.columnNorms.get i

theorem IsScale.ne_zero (hs : m.IsScale s) (hm : ∀ i, m.columns.get i ≠ .replicate 0) (i : Axis) :
    s.get i ≠ 0 := by
  rw [← abs_pos, hs i]
  exact columnNorms_pos_iff.mpr (hm i)

theorem IsScale.mul_self (hs : m.IsScale s) (i : Axis) :
    (m.columns.get i).dot (m.columns.get i) = s.get i * s.get i := by
  rw [← columnNorms_mul_self, ← hs i, abs_mul_abs_self]

theorem IsDiagonal.isScale (h : m.IsDiagonal) : m.IsScale m.diagonalEntries := by
  intro i
  rw [get_columnNorms, h.dot_self, Real.sqrt_mul_self_eq_abs, get_diagonalEntries]

/-- Divided by its length up to the sign, the first column has the same cosine. -/
theorem middleCosine_divideColumns (hs : m.IsScale s) :
    Euler.middleCosine (m.divideColumns s) =
      Trigonometry.hypot m.rows.x.x m.rows.y.x / m.columnNorms.x := by
  have hsx : |s.x| = m.columnNorms.x := hs .x
  rw [← hsx, ← Real.sqrt_mul_self_eq_abs]
  show √(m.rows.x.x / s.x * (m.rows.x.x / s.x) + m.rows.y.x / s.x * (m.rows.y.x / s.x)) =
    √(m.rows.x.x * m.rows.x.x + m.rows.y.x * m.rows.y.x) / √(s.x * s.x)
  rw [← Real.sqrt_div' _ (mul_self_nonneg s.x)]
  congr 1
  ring

/-- Orthogonal columns are the scaled columns of a rotation. -/
theorem exists_proper (hm : ∀ i, m.columns.get i ≠ .replicate 0)
    (horthogonal : ∀ i j, i ≠ j → (m.columns.get i).dot (m.columns.get j) = 0) :
    ∃ s, m.IsScale s ∧ (m.divideColumns s).Proper := by
  have hdet : ∀ {s : Vec3 ℝ}, m.IsScale s → m.toMatrix.det =
      (m.divideColumns s).toMatrix.det * (s.x * s.y * s.z) := by
    intro s hs
    rw [← det_scaleColumns, divideColumns_scaleColumns (hs.ne_zero hm)]
  have horthonormal : ∀ {s : Vec3 ℝ}, m.IsScale s → (m.divideColumns s).Orthonormal :=
    fun hs => orthonormal_divideColumns horthogonal hs.mul_self (hs.ne_zero hm)
  -- The lengths themselves leave a rotation or a reflection, and the latter becomes a rotation if
  -- the last sign is exchanged.
  have hpos : m.IsScale m.columnNorms := fun i => abs_of_nonneg (columnNorms_nonneg m i)
  have hneg : m.IsScale { m.columnNorms with z := -m.columnNorms.z } := by
    intro i
    cases i
    · exact hpos .x
    · exact hpos .y
    · exact (abs_neg _).trans (hpos .z)
  rcases (horthonormal hpos).det_eq with hone | hone
  · exact ⟨_, hpos, horthonormal hpos, (det_eq _).trans hone⟩
  · refine ⟨_, hneg, horthonormal hneg, (det_eq _).trans ?_⟩
    have hne : m.columnNorms.x * m.columnNorms.y * m.columnNorms.z ≠ 0 :=
      mul_ne_zero (mul_ne_zero (hpos.ne_zero hm .x) (hpos.ne_zero hm .y)) (hpos.ne_zero hm .z)
    refine mul_right_cancel₀ hne ?_
    linear_combination hdet hneg - hdet hpos -
      m.columnNorms.x * m.columnNorms.y * m.columnNorms.z * hone

end Matrix3

namespace AffineParts

variable {block : Matrix3 ℝ} {s : Vec3 ℝ}

/-- The lengths of the columns with any signs are those of a choice. -/
theorem exists_signs (hs : block.IsScale s) :
    ∃ signs ∈ signChoices, block.columnNorms.zipWith (· * ·) signs = s := by
  have hsign : ∀ i, ∃ a : ℝ, (a = 1 ∨ a = -1) ∧ block.columnNorms.get i * a = s.get i := by
    intro i
    rw [← hs i]
    rcases abs_choice (s.get i) with h | h
    · exact ⟨1, Or.inl rfl, by rw [h, mul_one]⟩
    · exact ⟨-1, Or.inr rfl, by rw [h]; ring⟩
  choose a ha hmul using hsign
  have hget : ∀ i, (⟨a .x, a .y, a .z⟩ : Vec3 ℝ).get i = a i := by
    intro i
    cases i <;> rfl
  refine ⟨⟨a .x, a .y, a .z⟩, mem_signChoices_iff.mpr fun i => ?_, Vec3.ext_get fun i => ?_⟩
  · rw [hget, Exact.ofInt_eq, Int.cast_one]
    exact ha i
  · rw [Vec3.get_zipWith, hget]
    exact hmul i

/-- A choice of signs that leaves a rotation whose angles are recovered is accepted. -/
theorem accepts_of_proper {signs : Vec3 ℝ} (hne : ∀ i, s.get i ≠ 0)
    (hsigns : block.columnNorms.zipWith (· * ·) signs = s)
    (hproper : (block.divideColumns s).Proper)
    (hcut : Euler.middleCosine (block.divideColumns s) = 0 ∨
      Euler.gimbalBound < Euler.middleCosine (block.divideColumns s)) :
    accepts block block.columnNorms 0 signs = true := by
  have hrebuild : (candidate block block.columnNorms signs).rebuild = block := by
    rw [candidate, Candidate.rebuild]
    simp only [hsigns]
    rw [Euler.toMatrix_ofMatrix hproper hcut, Matrix3.divideColumns_scaleColumns hne]
  have hdet : ¬ (block.divideColumns s).det < Scalar.ofInt 0 := by
    rw [hproper.det_eq_one, Exact.ofInt_eq, Int.cast_zero]
    exact not_lt.mpr zero_le_one
  unfold accepts
  simp only [hsigns, hrebuild]
  refine (Bool.and_eq_true _ _).mpr ⟨?_, Matrix3.near_zero_iff.mpr rfl⟩
  exact (Bool.not_eq_true' _).mpr (decide_eq_false hdet)

theorem turn_nonpos_iff {c : Candidate ℝ} : c.turn ≤ 0 ↔ c.angles = .replicate 0 := by
  simp only [Candidate.turn, Exact.greatest_eq, Exact.abs_eq, max_le_iff, abs_nonpos_iff,
    Vec3.ext_iff, Vec3.replicate, and_assoc]

theorem isUniform_zero_iff {norms : Vec3 ℝ} :
    isUniform norms 0 = true ↔ ∀ i j, norms.get i = norms.get j := by
  have hzero : (Scalar.ofInt 0 : ℝ) = 0 := Int.cast_zero
  have hnear : ∀ a : ℝ, Scalar.near 0 0 a norms.x = true ↔ a = norms.x := by
    intro a
    have h := Exact.near_zero_iff (a := a) (b := norms.x)
    rwa [hzero] at h
  simp only [isUniform, Vec3.all_eq_true_iff, hnear]
  exact ⟨fun h i j => (h i).trans (h j).symm, fun h i => h i .x⟩

/-- Of a diagonal matrix the search finds no turn at all. -/
theorem turn_nonpos_of_search {c : Candidate ℝ} (hdiagonal : block.IsDiagonal)
    (hne : ∀ i, block.columns.get i ≠ .replicate 0)
    (h : search block block.columnNorms 0 none signChoices = some c) : c.turn ≤ 0 := by
  have hentries := hdiagonal.isScale.ne_zero hne
  have hone := hdiagonal.divideColumns_eq_one hentries
  obtain ⟨signs, hmem, hsigns⟩ := exists_signs hdiagonal.isScale
  have haccepts : accepts block block.columnNorms 0 signs = true := by
    refine accepts_of_proper hentries hsigns ?_ ?_
    · rw [hone]
      exact Matrix3.proper_one
    · rw [hone, Euler.middleCosine_one]
      exact Or.inr Euler.gimbalBound_lt_one
  have hzero : (candidate block block.columnNorms signs).turn ≤ 0 := by
    rw [turn_nonpos_iff, candidate]
    simp only [hsigns]
    rw [hone, Euler.ofMatrix_one]
  rcases search_le h with hle | ⟨-, hle⟩
  · exact hle
  · exact (hle signs hmem haccepts).trans hzero

theorem Split.linear_eq_diagonal {m : Matrix4 ℝ} {d : AffineParts ℝ} (h : Split m 0 d)
    (hturn : (Candidate.mk d.scale d.rotation).turn ≤ 0) :
    d.rotation = .replicate 0 ∧ m.linear = .diagonal d.scale := by
  have hangles : d.rotation = .replicate 0 := turn_nonpos_iff.mp hturn
  refine ⟨hangles, ?_⟩
  rw [h.linear_eq, hangles, Euler.toMatrix_replicate_zero, Matrix3.scaleColumns_one]

theorem Split.separable {m : Matrix4 ℝ} {d : AffineParts ℝ} (h : Split m 0 d) :
    m.linear.Separable := by
  refine ⟨fun i => Matrix3.columnNorms_pos_iff.mp (not_le.mp (h.norms_gt i)), fun i j hij => ?_, ?_⟩
  · have hrotation := Euler.orthonormal_toMatrix RealAngle.pythagorean .zyx d.rotation
    rw [h.linear_eq, Matrix3.dot_columns_scaleColumns,
      Matrix3.orthonormal_iff_columns.mp hrotation, if_neg hij, zero_mul]
  · refine h.turns_little.imp isUniform_zero_iff.mp fun hturn => ?_
    rw [(h.linear_eq_diagonal (not_lt.mp hturn)).2]
    exact Matrix3.isDiagonal_diagonal _

theorem isSome_of_separable {m : Matrix4 ℝ} (haffine : m.isAffine = true)
    (h : m.linear.Separable) (hcut : m.linear.ClearsGimbal) : (ofMatrix? m 0).isSome = true := by
  obtain ⟨s, hs, hproper⟩ := Matrix3.exists_proper h.columns_ne_zero h.orthogonal
  obtain ⟨signs, hmem, hsigns⟩ := exists_signs hs
  have hclears := hcut.resolve_left (h.columns_ne_zero .x)
  have haccepts : accepts m.linear m.linear.columnNorms 0 signs = true := by
    refine accepts_of_proper (hs.ne_zero h.columns_ne_zero) hsigns hproper ?_
    rw [Matrix3.middleCosine_divideColumns hs, Euler.gimbalBound, Exact.tenth_eq]
    exact hclears
  have hsearch : (search m.linear m.linear.columnNorms 0 none signChoices).isSome = true :=
    isSome_search (Or.inr ⟨signs, hmem, haccepts⟩)
  obtain ⟨c, hc⟩ := Option.isSome_iff_exists.mp hsearch
  have hturn : isUniform m.linear.columnNorms 0 = true ∨ ¬ 0 < c.turn :=
    h.uniform_or_diagonal.imp isUniform_zero_iff.mpr fun hdiagonal =>
      not_lt.mpr (turn_nonpos_of_search hdiagonal h.columns_ne_zero hc)
  have hfinite : m.isFinite = true := List.all_eq_true.mpr fun _ _ => rfl
  have hnorms : ∀ axis, ¬ m.linear.columnNorms.get axis ≤ 0 :=
    fun i => not_le.mpr (Matrix3.columnNorms_pos_iff.mpr (h.columns_ne_zero i))
  exact Option.isSome_iff_exists.mpr ⟨⟨c.scale, c.angles, m.offset⟩,
    ofMatrix?_eq_some_iff.mpr ⟨⟨haffine, hfinite⟩, hnorms, hc, hturn, rfl⟩⟩

/-- **Which matrices are split.** Without a tolerance an affine matrix is split if and only if its
columns are those of a rotation with scaled axes, and the axes are scaled alike or nothing is
turned. The parts compose to the matrix exactly, and those of a diagonal matrix are its diagonal
and no turn. -/
theorem ofMatrix?_iff_separable {m : Matrix4 ℝ} (hbottom : m.bottom = ⟨0, 0, 0⟩)
    (hcorner : m.corner = 1) (hcut : m.linear.ClearsGimbal) :
    ((ofMatrix? m 0).isSome = true ↔ m.linear.Separable) ∧
      ∀ d, ofMatrix? m 0 = some d → d.toMatrix? = .ok m ∧
        (m.linear.IsDiagonal → d.scale = m.linear.diagonalEntries ∧ d.rotation = ⟨0, 0, 0⟩) := by
  have haffine : m.isAffine = true := by
    rw [Matrix4.isAffine_iff, hbottom, hcorner, Exact.ofInt_eq, Exact.ofInt_eq, Int.cast_zero,
      Int.cast_one]
    exact ⟨rfl, rfl⟩
  refine ⟨⟨fun h => ?_, fun h => isSome_of_separable haffine h hcut⟩, fun d h => ⟨?_, ?_⟩⟩
  · obtain ⟨d, hd⟩ := Option.isSome_iff_exists.mp h
    exact (split_of_ofMatrix? hd).separable
  · rw [toMatrix?_eq_ok fun _ => rfl, toMatrix_of_exact h]
  · intro hdiagonal
    have hsplit := split_of_ofMatrix? h
    obtain ⟨-, -, hsearch, -⟩ := ofMatrix?_eq_some_iff.mp h
    have hturn := turn_nonpos_of_search hdiagonal hsplit.separable.columns_ne_zero hsearch
    obtain ⟨hangles, hlinear⟩ := hsplit.linear_eq_diagonal hturn
    refine ⟨?_, hangles⟩
    rw [hlinear, Matrix3.diagonalEntries_diagonal]

/-- A quarter turn with a reflection that scales all axes alike is split. -/
theorem ofMatrix?_iff_separable_of_quarter_turn :
    let m : Matrix4 ℝ := ⟨⟨⟨0, -2, 0⟩, ⟨2, 0, 0⟩, ⟨0, 0, -2⟩⟩, ⟨1, 2, 3⟩, ⟨0, 0, 0⟩, 1⟩
    m.linear.ClearsGimbal ∧ ∃ d, ofMatrix? m 0 = some d ∧ d.toMatrix? = .ok m := by
  intro m
  have hdot : ∀ i j, (m.linear.columns.get i).dot (m.linear.columns.get j) =
      if i = j then 4 else 0 := by
    intro i j
    rw [Affine.dot_eq]
    cases i <;> cases j <;>
      simp [m, Matrix3.columns, Matrix3.transpose, Matrix3.ofColumns, Vec3.get] <;> norm_num
  have hnorms : ∀ i, m.linear.columnNorms.get i = 2 := by
    intro i
    rw [Matrix3.get_columnNorms, hdot, if_pos rfl, show (4 : ℝ) = 2 * 2 by norm_num,
      Real.sqrt_mul_self zero_le_two]
  have hcut : m.linear.ClearsGimbal := by
    have hhypot : Trigonometry.hypot m.linear.rows.x.x m.linear.rows.y.x = 2 := by
      show √(0 * 0 + 2 * 2) = 2
      rw [mul_zero, zero_add, Real.sqrt_mul_self zero_le_two]
    refine Or.inr (Or.inr ?_)
    rw [show m.linear.columnNorms.x = 2 from hnorms .x, hhypot]
    norm_num
  have hseparable : m.linear.Separable := by
    refine ⟨fun i => ?_, fun i j hij => (hdot i j).trans (if_neg hij),
      Or.inl fun i j => (hnorms i).trans (hnorms j).symm⟩
    rw [← Matrix3.columnNorms_pos_iff, hnorms]
    exact two_pos
  obtain ⟨hsome, hparts⟩ := ofMatrix?_iff_separable (m := m) rfl rfl hcut
  obtain ⟨d, hd⟩ := Option.isSome_iff_exists.mp (hsome.mpr hseparable)
  exact ⟨hcut, d, hd, (hparts d hd).1⟩

end AffineParts

end SparseVoxel

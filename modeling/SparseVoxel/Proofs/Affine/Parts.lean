import SparseVoxel.Proofs.Affine.PivotMap
import SparseVoxel.Affine.Parts

/-!
# What a split of an affine matrix says

Where the angles of the parts are finite, nothing is refused on the way from the parts to a matrix
(`toMatrix?_eq_ok`, `toMatrix?_toPivotMap`).

The search over the choices of signs keeps a candidate only if it is accepted and its turn is a
number, whether it ends early or not (`search_cases`). So a matrix that is split is affine and
finite, no column of it is negligible, and it agrees with the block rebuilt from its parts to within
the tolerance (`split_of_ofMatrix?`), over every type of scalars. In exact arithmetic a tolerance of
zero leaves nothing but the matrix itself (`toMatrix_of_exact`), and the search gives a candidate
whenever a choice is accepted (`isSome_search`), one that turns no more than any accepted choice
(`search_le`).
-/

namespace SparseVoxel.AffineParts

/-! ## The matrix of the parts -/

section Matrix

variable {K : Type} [Scalar K] [Trigonometry K] {d : AffineParts K}
variable (h : ∀ axis, Scalar.isFinite (d.rotation.get axis) = true)

include h

theorem toMatrix?_eq_ok : d.toMatrix? = .ok d.toMatrix :=
  bind_eq_ok.mpr ⟨_, Euler.toMatrix?_eq_ok .zyx h, rfl⟩

theorem rotationMatrix?_toPivotMap :
    d.toPivotMap.rotationMatrix? = .ok (Euler.toMatrix .zyx d.rotation) := by
  have horder : RotationOrder.ofName? "zyx" = .ok .zyx := rfl
  exact bind_eq_ok.mpr ⟨_, horder, Euler.toMatrix?_eq_ok .zyx h⟩

theorem toMatrix?_toPivotMap :
    d.toPivotMap.toMatrix? = .ok (d.toPivotMap.matrixWith (Euler.toMatrix .zyx d.rotation)) :=
  bind_eq_ok.mpr ⟨_, rotationMatrix?_toPivotMap h, rfl⟩

end Matrix

/-! ## The search -/

section Search

variable {K : Type} [Scalar K]

/-- The turn of a candidate is a number that is less than another, or finite. -/
def Candidate.Compares (c : Candidate K) : Prop :=
  Scalar.isFinite c.turn = true ∨ ∃ b : K, c.turn < b

theorem better_cases {best : Option (Candidate K)} {c d : Candidate K}
    (h : better best c = some d) : best = some d ∨ d = c ∧ c.Compares := by
  unfold better at h
  split at h
  · split at h
    · next hfinite => exact Or.inr ⟨(Option.some.inj h).symm, Or.inl hfinite⟩
    · cases h
  · next b =>
    split at h
    · next hlt => exact Or.inr ⟨(Option.some.inj h).symm, Or.inr ⟨b.turn, hlt⟩⟩
    · exact Or.inl h

theorem mem_signChoices_iff {signs : Vec3 K} : signs ∈ signChoices ↔
    ∀ axis, signs.get axis = Scalar.ofInt 1 ∨ signs.get axis = -Scalar.ofInt 1 := by
  have hsign : ∀ a : K, a ∈ [Scalar.ofInt 1, -Scalar.ofInt 1] ↔
      a = Scalar.ofInt 1 ∨ a = -Scalar.ofInt 1 := by
    intro a
    simp
  constructor
  · intro h axis
    obtain ⟨x, hx, h⟩ := List.mem_flatMap.mp h
    obtain ⟨y, hy, h⟩ := List.mem_flatMap.mp h
    obtain ⟨z, hz, rfl⟩ := List.mem_map.mp h
    cases axis
    · exact (hsign x).mp hx
    · exact (hsign y).mp hy
    · exact (hsign z).mp hz
  · intro h
    exact List.mem_flatMap.mpr ⟨signs.x, (hsign _).mpr (h .x), List.mem_flatMap.mpr
      ⟨signs.y, (hsign _).mpr (h .y), List.mem_map.mpr ⟨signs.z, (hsign _).mpr (h .z), rfl⟩⟩⟩

variable [Trigonometry K] {block : Matrix3 K} {norms : Vec3 K} {tolerance : K}

/-- The candidate that a search gives is the one it began with, or that of a choice it accepted. -/
theorem search_cases {choices : List (Vec3 K)} {best : Option (Candidate K)} {c : Candidate K}
    (h : search block norms tolerance best choices = some c) :
    best = some c ∨ c.Compares ∧ ∃ signs ∈ choices, accepts block norms tolerance signs = true ∧
      c = candidate block norms signs := by
  -- The best candidate changes on the way, and either it is returned or a later one is.
  induction choices generalizing best with
  | nil => exact Or.inl h
  | cons signs rest ih =>
    unfold search at h
    split at h
    · next haccepts =>
      have hbetter : better best (candidate block norms signs) = some c →
          best = some c ∨ c.Compares ∧ ∃ s ∈ signs :: rest,
            accepts block norms tolerance s = true ∧ c = candidate block norms s := by
        intro hc
        rcases better_cases hc with hbest | ⟨rfl, hcompares⟩
        · exact Or.inl hbest
        · exact Or.inr ⟨hcompares, signs, List.mem_cons_self, haccepts, rfl⟩
      simp only at h
      split at h
      · exact hbetter h
      · rcases ih h with hbest | ⟨hcompares, s, hs, hfound⟩
        · exact hbetter hbest
        · exact Or.inr ⟨hcompares, s, List.mem_cons_of_mem _ hs, hfound⟩
    · rcases ih h with hbest | ⟨hcompares, s, hs, hfound⟩
      · exact Or.inl hbest
      · exact Or.inr ⟨hcompares, s, List.mem_cons_of_mem _ hs, hfound⟩

/-- What is known of the parts that a matrix is split into. -/
structure Split (m : Matrix4 K) (tolerance : K) (d : AffineParts K) : Prop where
  isAffine : m.isAffine = true
  isFinite : m.isFinite = true
  shift_eq : d.shift = m.offset
  norms_gt : ∀ axis, ¬ m.linear.columnNorms.get axis ≤ tolerance
  exists_signs : ∃ signs ∈ signChoices,
    d.scale = m.linear.columnNorms.zipWith (· * ·) signs
  near : m.linear.near (Scalar.ofInt 0) tolerance
    ((Euler.toMatrix .zyx d.rotation).scaleColumns d.scale) = true
  compares : (Candidate.mk d.scale d.rotation).Compares
  turns_little : isUniform m.linear.columnNorms tolerance = true ∨
    ¬ tolerance < (Candidate.mk d.scale d.rotation).turn

/-- A block is split by what the search gives, if no column is negligible and it does not combine
unequal lengths with a turn. -/
theorem ofBlock?_eq_some_iff {c : Candidate K} : ofBlock? block tolerance = some c ↔
    (∀ axis, ¬ block.columnNorms.get axis ≤ tolerance) ∧
      search block block.columnNorms tolerance none signChoices = some c ∧
      (isUniform block.columnNorms tolerance = true ∨ ¬ tolerance < c.turn) := by
  have hnorms : (block.columnNorms.any fun n => decide (n ≤ tolerance)) = true ↔
      ∃ axis, block.columnNorms.get axis ≤ tolerance := by
    simp only [Vec3.any_eq_true_iff, decide_eq_true_eq]
  unfold ofBlock?
  simp only
  split
  · next hany =>
    obtain ⟨axis, hle⟩ := hnorms.mp hany
    exact ⟨nofun, fun h => absurd hle (h.1 axis)⟩
  · next hany =>
    have hnone : ∀ axis, ¬ block.columnNorms.get axis ≤ tolerance :=
      not_exists.mp fun h => hany (hnorms.mpr h)
    cases search block block.columnNorms tolerance none signChoices with
    | none => simp
    | some c' =>
      simp only [hnone, not_false_eq_true, implies_true, true_and, Option.ite_none_left_eq_some,
        Option.some.injEq, Bool.and_eq_true, Bool.not_eq_true', decide_eq_true_eq, not_and_or,
        Bool.not_eq_false]
      constructor
      · rintro ⟨hturn, rfl⟩
        exact ⟨rfl, hturn⟩
      · rintro ⟨rfl, hturn⟩
        exact ⟨hturn, rfl⟩

theorem ofMatrix?_eq_some_iff {m : Matrix4 K} {d : AffineParts K} : ofMatrix? m tolerance = some d ↔
    (m.isAffine = true ∧ m.isFinite = true) ∧
      (∀ axis, ¬ m.linear.columnNorms.get axis ≤ tolerance) ∧
      search m.linear m.linear.columnNorms tolerance none signChoices =
        some ⟨d.scale, d.rotation⟩ ∧
      (isUniform m.linear.columnNorms tolerance = true ∨
        ¬ tolerance < (Candidate.mk d.scale d.rotation).turn) ∧
      d.shift = m.offset := by
  unfold ofMatrix?
  split
  · next haffine =>
    rw [Bool.and_eq_true] at haffine
    rw [Option.map_eq_some_iff]
    constructor
    · rintro ⟨c, hc, rfl⟩
      obtain ⟨hnorms, hsearch, hturn⟩ := ofBlock?_eq_some_iff.mp hc
      exact ⟨haffine, hnorms, hsearch, hturn, rfl⟩
    · rintro ⟨-, hnorms, hsearch, hturn, hshift⟩
      refine ⟨_, ofBlock?_eq_some_iff.mpr ⟨hnorms, hsearch, hturn⟩, ?_⟩
      rw [← hshift]
  · next haffine =>
    exact ⟨nofun, fun h => absurd ((Bool.and_eq_true _ _).mpr h.1) haffine⟩

theorem split_of_ofMatrix? {m : Matrix4 K} {d : AffineParts K}
    (h : ofMatrix? m tolerance = some d) : Split m tolerance d := by
  obtain ⟨⟨haffine, hfinite⟩, hnorms, hsearch, hturn, hshift⟩ := ofMatrix?_eq_some_iff.mp h
  rcases search_cases hsearch with hbest | ⟨hcompares, signs, hsigns, haccepts, hcandidate⟩
  · cases hbest
  · have hscale : d.scale = (candidate m.linear m.linear.columnNorms signs).scale :=
      congrArg Candidate.scale hcandidate
    have hangles : d.rotation = (candidate m.linear m.linear.columnNorms signs).angles :=
      congrArg Candidate.angles hcandidate
    refine ⟨haffine, hfinite, hshift, hnorms, ⟨signs, hsigns, hscale⟩, ?_, hcompares, hturn⟩
    rw [hscale, hangles]
    exact ((Bool.and_eq_true _ _).mp haccepts).2

end Search

/-! ## Exact arithmetic -/

section Exact

variable {K : Type} [Field K] [LinearOrder K] [FloorRing K]

theorem better_spec (best : Option (Candidate K)) (c : Candidate K) : ∃ d, better best c = some d ∧
    d.turn ≤ c.turn ∧ ∀ b, best = some b → d.turn ≤ b.turn := by
  cases best with
  | none => exact ⟨c, rfl, le_rfl, nofun⟩
  | some b =>
    by_cases hlt : c.turn < b.turn
    · refine ⟨c, if_pos hlt, le_rfl, fun b' hb' => ?_⟩
      cases hb'
      exact hlt.le
    · refine ⟨b, if_neg hlt, not_lt.mp hlt, fun b' hb' => ?_⟩
      cases hb'
      exact le_rfl

section Least

variable [Trigonometry K] {block : Matrix3 K} {norms : Vec3 K} {tolerance : K}

/-- The search gives a candidate if it begins with one or some choice is accepted. -/
theorem isSome_search {choices : List (Vec3 K)} {best : Option (Candidate K)}
    (h : best.isSome = true ∨ ∃ signs ∈ choices, accepts block norms tolerance signs = true) :
    (search block norms tolerance best choices).isSome = true := by
  induction choices generalizing best with
  | nil => exact h.resolve_right (by simp)
  | cons signs rest ih =>
    unfold search
    split
    · obtain ⟨d, hd, -⟩ := better_spec best (candidate block norms signs)
      simp only [hd]
      split
      · rfl
      · exact ih (Or.inl rfl)
    · next hnot =>
      refine ih (h.imp_right fun ⟨s, hs, haccepts⟩ => ?_)
      rcases List.mem_cons.mp hs with rfl | hs
      · exact absurd haccepts hnot
      · exact ⟨s, hs, haccepts⟩

/-- What the search gives turns no more than the tolerance, or else no more than any accepted
choice and the candidate it began with. -/
theorem search_le {choices : List (Vec3 K)} {best : Option (Candidate K)} {c : Candidate K}
    (h : search block norms tolerance best choices = some c) : c.turn ≤ tolerance ∨
      (∀ b, best = some b → c.turn ≤ b.turn) ∧
        ∀ signs ∈ choices, accepts block norms tolerance signs = true →
          c.turn ≤ (candidate block norms signs).turn := by
  induction choices generalizing best with
  | nil =>
    refine Or.inr ⟨fun b hb => ?_, nofun⟩
    cases hb.symm.trans h
    exact le_rfl
  | cons signs rest ih =>
    unfold search at h
    split at h
    · obtain ⟨d, hd, hle, hbest⟩ := better_spec best (candidate block norms signs)
      simp only [hd] at h
      split at h
      · next hturn =>
        cases h
        exact Or.inl (hle.trans hturn)
      · refine (ih h).imp_right fun ⟨hd', hrest⟩ => ?_
        have hcd := hd' d rfl
        refine ⟨fun b hb => hcd.trans (hbest b hb), fun s hs haccepts => ?_⟩
        rcases List.mem_cons.mp hs with rfl | hs
        · exact hcd.trans hle
        · exact hrest s hs haccepts
    · next hnot =>
      refine (ih h).imp_right fun ⟨hbest, hrest⟩ => ⟨hbest, fun s hs haccepts => ?_⟩
      rcases List.mem_cons.mp hs with rfl | hs
      · exact absurd haccepts hnot
      · exact hrest s hs haccepts

end Least

/-- As a pivoted map the parts have the same matrix. -/
theorem matrixWith_toPivotMap [Trigonometry K] (d : AffineParts K) :
    d.toPivotMap.matrixWith (Euler.toMatrix .zyx d.rotation) = d.toMatrix := by
  have hpivot : d.toPivotMap.pivot = .replicate 0 := congrArg Vec3.replicate Exact.zero_eq
  rw [PivotMap.matrixWith, hpivot]
  exact Affine.pivoted_origin _ _ _

variable [IsStrictOrderedRing K] [Trigonometry K]

theorem Split.linear_eq {m : Matrix4 K} {d : AffineParts K} (h : Split m 0 d) :
    m.linear = (Euler.toMatrix .zyx d.rotation).scaleColumns d.scale :=
  Matrix3.near_zero_iff.mp h.near

/-- Without a tolerance the parts compose to the matrix. -/
theorem toMatrix_of_exact {m : Matrix4 K} {d : AffineParts K}
    (h : ofMatrix? m 0 = some d) : d.toMatrix = m := by
  have hsplit := split_of_ofMatrix? h
  rw [toMatrix, Affine.pivoted_none, ← hsplit.linear_eq, hsplit.shift_eq]
  exact (Matrix4.eq_affine hsplit.isAffine).symm

end Exact

end SparseVoxel.AffineParts

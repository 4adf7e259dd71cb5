import Mathlib.Algebra.MvPolynomial.Degrees
import SparseVoxel.Proofs.Sampler.Component
import SparseVoxel.Proofs.Sampler.Lattice

/-!
# Polynomials are reproduced

A sampler reproduces, in exact arithmetic, the polynomials whose degree in each variable is at most
`Sampler.degree`: constants for the nearest voxel, degree one for the linear blend and degree two
for the quadratic one. On one axis this is an identity between powers (`along_pow`). A monomial is
a product of powers over the axes, so a blend takes it axis by axis, and a polynomial is a sum of
monomials (`blend_eval`).

`readWindow?_polynomial` is the main statement. It is about every window that holds the values of a
polynomial at the lattice, in each component one of its own, and every position whose stencil lies
in the window.
-/

namespace SparseVoxel

open MvPolynomial

instance : Fintype Axis :=
  ⟨{.x, .y, .z}, fun axis => by cases axis <;> decide⟩

theorem Axis.prod_univ {M : Type} [CommMonoid M] (f : Axis → M) :
    ∏ axis, f axis = f .x * f .y * f .z := by
  show ∏ axis ∈ {Axis.x, Axis.y, Axis.z}, f axis = _
  rw [Finset.prod_insert (by decide), Finset.prod_insert (by decide), Finset.prod_singleton,
    mul_assoc]

namespace Sampler

/-- The degree in each variable up to which a sampler reproduces polynomials. -/
def degree : Sampler → Nat
  | .point => 0
  | .box => 1
  | .quadratic => 2

/-! ## Blends of sums and products -/

section Linear

variable {K : Type} [Field K]

theorem blend_mul_left (s : Sampler) (t : Vec3 K) (a : K) (read : Coord → K) :
    s.blend t (fun o => a * read o) = a * s.blend t read := by
  unfold blend
  rw [← List.sum_map_mul_left]
  simp only [mul_left_comm a]

theorem blend_sum {ι : Type} (s : Sampler) (t : Vec3 K) (terms : Finset ι)
    (read : ι → Coord → K) :
    s.blend t (fun o => ∑ i ∈ terms, read i o) = ∑ i ∈ terms, s.blend t (read i) := by
  unfold blend
  simp only [Finset.mul_sum]
  induction s.stencil with
  | nil => simp
  | cons o os ih => simp only [List.map_cons, List.sum_cons, ih, Finset.sum_add_distrib]

theorem along_mul_left (s : Sampler) (t a : K) (f : Int → K) :
    s.along t (fun d => a * f d) = a * s.along t f := by
  unfold along
  rw [← List.sum_map_mul_left]
  simp only [mul_left_comm a]

theorem along_mul_right (s : Sampler) (t a : K) (f : Int → K) :
    s.along t (fun d => f d * a) = s.along t f * a := by
  simp only [mul_comm _ a, along_mul_left]

/-- A blend depends only on the readings of the stencil. -/
theorem blend_congr (s : Sampler) (t : Vec3 K) {f g : Coord → K} (h : ∀ o ∈ s.stencil, f o = g o) :
    s.blend t f = s.blend t g := by
  unfold blend
  exact congrArg List.sum (List.map_congr_left fun o ho => by rw [h o ho])

/-- Readings that are products over the axes are blended on each axis. -/
theorem blend_prod (s : Sampler) (t : Vec3 K) (f g h : Int → K) :
    s.blend t (fun o => f o.x * g o.y * h o.z) =
      s.along t.x f * s.along t.y g * s.along t.z h := by
  simp only [blend_eq_along, along_mul_left, along_mul_right]

/-! ## Powers, monomials and polynomials -/

variable [CharZero K]

/-- On one axis the powers up to the degree are reproduced. -/
theorem along_pow {s : Sampler} {n : Nat} (hn : n ≤ s.degree) (b t : K) :
    s.along t (fun d => (b + d) ^ n) = (b + t) ^ n := by
  cases s with
  | point =>
    obtain rfl : n = 0 := Nat.le_zero.mp hn
    simp [along, offsets, weight]
  | box =>
    have hsum : along .box t (fun d => (b + d) ^ n) =
        (1 - t) * (b + (0 : Int)) ^ n + (t * (b + (1 : Int)) ^ n + 0) := by
      simp [along, offsets]
    have hn : n ≤ 1 := hn
    obtain rfl | rfl : n = 0 ∨ n = 1 := by omega
    all_goals
      rw [hsum]
      push_cast
      ring
  | quadratic =>
    have hsum : along .quadratic t (fun d => (b + d) ^ n) =
        t * (t - 1) / 2 * (b + (-1 : Int)) ^ n + ((1 - t ^ 2) * (b + (0 : Int)) ^ n +
          (t * (t + 1) / 2 * (b + (1 : Int)) ^ n + 0)) := by
      simp [along, offsets]
    have hn : n ≤ 2 := hn
    obtain rfl | rfl | rfl : n = 0 ∨ n = 1 ∨ n = 2 := by omega
    all_goals
      rw [hsum]
      push_cast
      field_simp
      ring

/-- The readings of a polynomial at the lattice are blended to its value at the position. -/
theorem blend_eval {s : Sampler} {P : MvPolynomial Axis K}
    (hP : ∀ axis, P.degreeOf axis ≤ s.degree) (base : Coord) (t : Vec3 K) :
    s.blend t (fun o => eval (fun axis => ((base + o).get axis : K)) P) =
      eval (fun axis => (base.get axis : K) + t.get axis) P := by
  have hpow : ∀ m ∈ P.support, ∀ axis, s.along (t.get axis)
      (fun d => ((base.get axis : K) + d) ^ m axis) = ((base.get axis : K) + t.get axis) ^ m axis :=
    fun m hm axis => along_pow ((monomial_le_degreeOf axis hm).trans (hP axis)) _ _
  have hget : ∀ (o : Coord) axis, ((base + o).get axis : K) = base.get axis + o.get axis := by
    intro o axis
    rw [← Int.cast_add]
    exact congrArg Int.cast (Vec3.get_zipWith _ _ _ _)
  simp only [eval_eq', Axis.prod_univ, hget]
  rw [blend_sum]
  refine Finset.sum_congr rfl fun m hm => ?_
  rw [blend_mul_left]
  congr 1
  refine (s.blend_prod t (fun d => ((base.get .x : K) + d) ^ m .x)
    (fun d => ((base.get .y : K) + d) ^ m .y) (fun d => ((base.get .z : K) + d) ^ m .z)).trans ?_
  exact congrArg₂ (· * ·) (congrArg₂ (· * ·) (hpow m hm .x) (hpow m hm .y)) (hpow m hm .z)

end Linear

/-! ## Samples -/

variable {K : Type} [Field K] [LinearOrder K] [FloorRing K] [IsStrictOrderedRing K]

/-- Readings whose components are values of polynomials are sampled as the value at the position. -/
theorem component_sampleAt_polynomial {s : Sampler} {kind : ValueKind}
    {read : Coord → Voxel (kind.ValueOver K)} {p : Vec3 K} {axis : Axis} {P : MvPolynomial Axis K}
    (hP : ∀ i, P.degreeOf i ≤ s.degree)
    (h : ∀ o ∈ s.stencil, kind.component (read (s.baseOf p + o)).value axis =
      eval (fun i => ((s.baseOf p + o).get i : K)) P) :
    kind.component (s.sampleAt read p).value axis = kind.convert (eval p.get P) := by
  have hposition : (fun i => ((s.baseOf p).get i : K) + (p - (s.baseOf p).toScalars).get i) =
      p.get := by
    funext i
    rw [get_rest, add_sub_cancel]
  rw [component_sampleAt, ← hposition, ← blend_eval hP]
  exact congrArg kind.convert (s.blend_congr _ h)

/-- **Polynomials are reproduced.** A window that holds the values of polynomials at the lattice,
of no greater degree in any variable than the sampler's, is sampled at every position whose stencil
it holds as the values of the polynomials there. In particular a constant neighbourhood gives its
value, and a voxel of the lattice its state. -/
theorem readWindow?_polynomial (s : Sampler) (kind : ValueKind) {w : Window (kind.ValueOver K)}
    {read : Coord → Voxel (kind.ValueOver K)} {box : Box} (hw : w.Holds read box) {p : Vec3 K}
    (hp : ∀ o ∈ s.stencil, s.baseOf p + o ∈ box) :
    ∃ v, s.readWindow? w (p - box.lo.toScalars) = .ok v ∧
      (∀ P : Axis → MvPolynomial Axis K, (∀ axis i, (P axis).degreeOf i ≤ s.degree) →
        (∀ c ∈ box, ∀ axis,
          kind.component (read c).value axis = eval (fun i => (c.get i : K)) (P axis)) →
        (∀ axis, kind.component v.value axis = kind.convert (eval p.get (P axis))) ∧
          ∀ u, (∀ axis, kind.component u axis = eval p.get (P axis)) → v.value = u) ∧
      (∀ u, (∀ o ∈ s.stencil, (read (s.baseOf p + o)).value = u) → v.value = u) ∧
      ∀ c : Coord, p = c.toScalars → v = read c := by
  have hpolynomial : ∀ P : Axis → MvPolynomial Axis K, (∀ axis i, (P axis).degreeOf i ≤ s.degree) →
      (∀ o ∈ s.stencil, ∀ axis, kind.component (read (s.baseOf p + o)).value axis =
        eval (fun i => ((s.baseOf p + o).get i : K)) (P axis)) →
      (∀ axis, kind.component (s.sampleAt read p).value axis =
          kind.convert (eval p.get (P axis))) ∧
        ∀ u, (∀ axis, kind.component u axis = eval p.get (P axis)) →
          (s.sampleAt read p).value = u := by
    intro P hdegree hread
    have hvalue := fun axis => component_sampleAt_polynomial (hdegree axis) fun o ho =>
      hread o ho axis
    refine ⟨hvalue, fun u hu => ValueKind.ext_component fun axis => ?_⟩
    rw [hvalue, ← hu, ValueKind.convert_component]
  refine ⟨s.sampleAt read p, s.readWindow?_of_holds hw hp, ?_, ?_, ?_⟩
  · exact fun P hdegree hread => hpolynomial P hdegree fun o ho => hread _ (hp o ho)
  · -- a constant is a polynomial of degree zero
    intro u hu
    refine (hpolynomial (fun axis => C (kind.component u axis)) ?_ ?_).2 u ?_
    · intro axis i
      rw [degreeOf_C]
      exact Nat.zero_le _
    · intro o ho axis
      rw [hu o ho, eval_C]
    · intro axis
      rw [eval_C]
  · rintro c rfl
    exact s.sampleAt_toScalars read c

theorem degreeOf_powers_le {R : Type} [CommSemiring R] [Nontrivial R] (n : Vec3 Nat) (i : Axis) :
    (X .x ^ n.x * X .y ^ n.y * X .z ^ n.z : MvPolynomial Axis R).degreeOf i ≤ n.get i := by
  have hpow : ∀ (j : Axis) (k : Nat),
      (X j ^ k : MvPolynomial Axis R).degreeOf i = if i = j then k else 0 := by
    intro j k
    split
    · next h => rw [h, degreeOf_X_self_pow]
    · next h => exact degreeOf_X_pow_of_ne k h
  calc _ ≤ _ := degreeOf_mul_le i _ _
    _ ≤ _ := Nat.add_le_add_right (degreeOf_mul_le i _ _) _
    _ ≤ n.get i := by
      rw [hpow, hpow, hpow]
      cases i <;> simp [Vec3.get]

/-- Three mixed monomials around the origin, at a position halfway between two voxels on one
axis. -/
theorem readWindow?_polynomial_of_mixed :
    let exponents : Axis → Vec3 Nat := (Vec3.mk ⟨2, 1, 2⟩ ⟨0, 2, 0⟩ ⟨1, 0, 1⟩).get
    let value (axis : Axis) (c : Coord) : ℚ :=
      c.x ^ (exponents axis).x * c.y ^ (exponents axis).y * c.z ^ (exponents axis).z
    let read : Coord → Voxel (Vec3 ℚ) := fun c => ⟨⟨value .x c, value .y c, value .z c⟩, true⟩
    let box : Box := ⟨⟨-1, -1, -1⟩, ⟨1, 1, 1⟩⟩
    let w : Window (Vec3 ℚ) := ⟨box, (box.coords.map read).toArray⟩
    let p : Vec3 ℚ := ⟨-1 / 2, 1 / 4, -1 / 3⟩
    w.Holds read box ∧ (∀ o ∈ stencil .quadratic, baseOf .quadratic p + o ∈ box) ∧
      ∃ v, readWindow? .quadratic w (p - box.lo.toScalars) = .ok v ∧
        v.value = ⟨1 / 144, 1 / 16, 1 / 6⟩ := by
  intro exponents value read box w p
  have hw : w.Holds read box := by
    have hcells : ∀ c ∈ box.coords, w.cell? (c - box.lo) = some (read c) := by decide +kernel
    exact fun c hc => hcells c (Box.mem_coords.mpr hc)
  have hp : ∀ o ∈ stencil .quadratic, baseOf .quadratic p + o ∈ box := by decide +kernel
  obtain ⟨v, hv, hpolynomial, -⟩ := readWindow?_polynomial .quadratic .double3 hw hp
  let P (axis : Axis) : MvPolynomial Axis ℚ :=
    X .x ^ (exponents axis).x * X .y ^ (exponents axis).y * X .z ^ (exponents axis).z
  have hdegree : ∀ axis i, (P axis).degreeOf i ≤ degree .quadratic := by
    intro axis i
    refine (degreeOf_powers_le (exponents axis) i).trans ?_
    cases axis <;> cases i <;> decide
  have heval : ∀ axis (q : Axis → ℚ), eval q (P axis) =
      q .x ^ (exponents axis).x * q .y ^ (exponents axis).y * q .z ^ (exponents axis).z := by
    intro axis q
    simp [P]
  refine ⟨hw, hp, v, hv, (hpolynomial P hdegree ?_).2 _ ?_⟩
  · intro c _ axis
    rw [heval]
    cases axis <;> rfl
  · intro axis
    rw [heval]
    cases axis <;> norm_num [exponents, p, ValueKind.component, Vec3.get]

end Sampler

end SparseVoxel

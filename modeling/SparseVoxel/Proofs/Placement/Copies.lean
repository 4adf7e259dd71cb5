import SparseVoxel.Proofs.Affine.Extended
import SparseVoxel.Proofs.Matrix.Strict
import SparseVoxel.Proofs.Scalar.QuarterTurns
import SparseVoxel.Resampler.Alignment

/-!
# Which placements can be copied

A call that composes something with a placement looks at the determinant alone, while a copy has to
be affine as well. Over scalars with infinities the two do not agree. In a product of matrices the
bottom row of the left factor meets the offset of the right one, and zero times an infinity is no
number, so an accepted call can leave a corner that is not one
(`copy?_of_infinite_shift`).

A `Change` is an accepted call. What it does to the bottom row depends on the right factor alone:
with a finite offset there the result is affine if the placement was (`isAffine_mul_of_isFinite`),
and otherwise its corner is not finite, which no later call undoes (`isFinite_of_corner_mul`). So a
placement can be copied exactly if the right factor of every call had a finite offset
(`copy?_iff_finite_offsets`). The determinant is always one that a copy accepts.
-/

namespace SparseVoxel

variable {K : Type} [Scalar K]

namespace Matrix4

section Neutral

variable [NeutralScalar K]

open NeutralScalar

theorem isAffine_affine_of_neutral (linear : Matrix3 K) (offset : Vec3 K) :
    (affine linear offset).isAffine = true := by
  refine isAffine_iff_beq.mpr ⟨fun axis => ?_, beq_one⟩
  cases axis <;> exact beq_zero

/-- A row of zeros times finite entries is zero. -/
theorem dot_zero {v w : Vec3 K} (hv : ∀ axis, (v.get axis == Scalar.ofInt 0) = true)
    (hw : w.IsFinite) : (v.dot w == Scalar.ofInt 0) = true :=
  zero_add (zero_add (zero_add beq_zero (zero_mul (hv .x) (hw .x))) (zero_mul (hv .y) (hw .y)))
    (zero_mul (hv .z) (hw .z))

variable [StrictScalar K]

theorem isFinite_of_beq_one {a : K} (h : (a == Scalar.ofInt 1) = true) :
    Scalar.isFinite a = true := by
  rw [StrictScalar.of_beq h, isFinite_one]

/-- The product of affine matrices is affine if the linear block and the offset of the right one are
finite. -/
theorem isAffine_mul_of_isFinite {a b : Matrix4 K} (ha : a.isAffine = true) (hb : b.isAffine = true)
    (hlinear : b.linear.IsFinite) (hoffset : b.offset.IsFinite) : (a.mul b).isAffine = true := by
  obtain ⟨hbottom, hcorner⟩ := isAffine_iff_beq.mp ha
  obtain ⟨hbottom', hcorner'⟩ := isAffine_iff_beq.mp hb
  refine isAffine_iff_beq.mpr ⟨fun axis => ?_, ?_⟩
  · have hcolumn := Matrix3.isFinite_iff_columns.mp hlinear axis
    have hentry : (a.mul b).bottom.get axis =
        a.bottom.dot (b.linear.columns.get axis) + a.corner * b.bottom.get axis :=
      Vec3.get_zipWith _ _ _ _
    rw [hentry]
    exact zero_add (dot_zero hbottom hcolumn)
      (mul_zero (isFinite_of_beq_one hcorner) (hbottom' axis))
  · exact zero_add (dot_zero hbottom hoffset) (one_mul hcorner hcorner')

end Neutral

section Strict

variable [StrictScalar K]

/-- What enters the corner of a product. -/
theorem isFinite_of_corner_mul {a b : Matrix4 K} (h : Scalar.isFinite (a.mul b).corner = true) :
    b.offset.IsFinite ∧ Scalar.isFinite a.corner = true ∧ Scalar.isFinite b.corner = true := by
  obtain ⟨hdot, hproduct⟩ := StrictScalar.of_add h
  exact ⟨(Vec3.isFinite_of_dot hdot).2, StrictScalar.of_mul hproduct⟩

/-- What enters the linear block of a product. -/
theorem isFinite_of_linear_mul {a b : Matrix4 K} (h : (a.mul b).linear.IsFinite) :
    b.linear.IsFinite := by
  refine Matrix3.isFinite_iff_columns.mpr fun j => ?_
  have hentry : (a.mul b).linear.entry .x j =
      a.linear.rows.x.dot (b.linear.columns.get j) + a.offset.x * b.bottom.get j := by
    cases j <;> rfl
  have hfinite := h .x j
  rw [hentry] at hfinite
  exact (Vec3.isFinite_of_dot (StrictScalar.of_add hfinite).1).2

end Strict

end Matrix4

namespace Placement

/-! ## Copies -/

theorem copy?_eq_ok_self_iff {t : Placement K} :
    t.copy? = .ok t ↔ t.matrix.isAffine = true ∧ t.matrix.isRegular = true :=
  ofMatrix?_eq_ok_iff.trans (and_iff_left rfl)

theorem copy?_of_not_isAffine {t : Placement K} (h : t.matrix.isAffine = false) :
    t.copy? = .error .placementNotAffine := by
  unfold copy? ofMatrix?
  rw [h]
  rfl

/-- A grid is copied exactly if its placement is. -/
theorem copy?_grid_iff {V : Type} {k : Nat} {g : PlacedGrid K V k} :
    g.copy? = .ok g ↔ g.placement.copy? = .ok g.placement := by
  unfold PlacedGrid.copy?
  cases g.placement.copy? with
  | error e => exact iff_of_false nofun nofun
  | ok t =>
    show Except.ok { g with placement := t } = Except.ok g ↔ Except.ok t = Except.ok g.placement
    rw [Except.ok.injEq, Except.ok.injEq]
    exact ⟨congrArg PlacedGrid.placement, fun h => h ▸ rfl⟩

theorem copy?_extended_identity :
    (identity : Placement (Extended ℚ)).copy? = .ok identity :=
  copy?_eq_ok_self_iff.mpr ⟨by decide +kernel, by decide +kernel⟩

/-- A shift by an infinity is accepted, and what it leaves cannot be copied. -/
theorem copy?_of_infinite_shift :
    let v : Vec3 (Extended ℚ) := ⟨.infinite false, .finite 0, .finite 0⟩
    let t : Placement (Extended ℚ) := ⟨identity.composed .index (.shift v)⟩
    (identity : Placement (Extended ℚ)).copy? = .ok identity ∧
      identity.shift? .index v = .ok t ∧ t.copy? = .error .placementNotAffine := by
  intro v t
  have hregular : t.matrix.isRegular = true := by decide +kernel
  have haffine : t.matrix.isAffine = false := by decide +kernel
  have hshift : identity.compose? .index (.shift v) = .ok t :=
    compose?_eq_ok_iff.mpr ⟨hregular, rfl⟩
  exact ⟨copy?_extended_identity, hshift, copy?_of_not_isAffine haffine⟩

/-! ## Changes -/

/-- A call on a placement that composes a matrix on a side. -/
structure Change (K : Type) where
  before : Placement K
  side : Side
  op : Matrix4 K

/-- The right factor of the product. -/
def Change.right (c : Change K) : Matrix4 K :=
  match c.side with
  | .index => c.op
  | .world => c.before.matrix

section Changes

variable [Trigonometry K]

/-- A call is accepted and leaves a placement. -/
inductive Accepts : Change K → Placement K → Prop
  | scale {t t' : Placement K} {side : Side} {v : Vec3 K} :
    t.scale? side v = .ok t' → Accepts ⟨t, side, .scaling v⟩ t'
  | shift {t t' : Placement K} {side : Side} {v : Vec3 K} :
    t.shift? side v = .ok t' → Accepts ⟨t, side, .shift v⟩ t'
  | rotate {t t' : Placement K} {side : Side} {axis : String} {angle : K} {r : Matrix3 K} :
    Axis.rotation? axis angle = .ok r → t.rotate? side axis angle = .ok t' →
    Accepts ⟨t, side, .ofLinear r⟩ t'
  | composeWorld {t t' : Placement K} {m : Matrix4 K} :
    t.composeWorld? m = .ok t' → Accepts ⟨t, .world, m⟩ t'

/-- What accepted calls, the last one first, make of a placement. -/
inductive Reaches (start : Placement K) : List (Change K) → Placement K → Prop
  | start : Reaches start [] start
  | call {changes : List (Change K)} {c : Change K} {t : Placement K} :
    Reaches start changes c.before → Accepts c t → Reaches start (c :: changes) t

variable [NeutralScalar K]

/-- An accepted call composes an affine matrix. -/
theorem Accepts.compose?_eq_ok {c : Change K} {t : Placement K} (h : Accepts c t) :
    c.op.isAffine = true ∧ c.before.compose? c.side c.op = .ok t := by
  cases h with
  | scale h => exact ⟨Matrix4.isAffine_affine_of_neutral _ _, h⟩
  | shift h => exact ⟨Matrix4.isAffine_affine_of_neutral _ _, h⟩
  | rotate hr h =>
    unfold rotate? at h
    rw [hr] at h
    exact ⟨Matrix4.isAffine_affine_of_neutral _ _, h⟩
  | composeWorld h => exact composeWorld?_eq_ok_iff.mp h

/-- What an accepted call leaves can be inverted. -/
theorem Accepts.spec {c : Change K} {t : Placement K} (h : Accepts c t) :
    t.matrix.isRegular = true ∧ t = ⟨c.before.composed c.side c.op⟩ := by
  obtain ⟨hregular, rfl⟩ := compose?_eq_ok_iff.mp h.compose?_eq_ok.2
  exact ⟨hregular, rfl⟩

theorem Reaches.isRegular {start t : Placement K} {changes : List (Change K)}
    (h : Reaches start changes t) (hstart : start.matrix.isRegular = true) :
    t.matrix.isRegular = true := by
  cases h with
  | start => exact hstart
  | call _ haccepts => exact haccepts.spec.1

variable [StrictScalar K]

/-- After an accepted call the corner is finite only if it was, and the right factor had a finite
offset. -/
theorem Accepts.isFinite_corner {c : Change K} {t : Placement K} (h : Accepts c t)
    (hcorner : Scalar.isFinite t.matrix.corner = true) :
    Scalar.isFinite c.before.matrix.corner = true ∧ c.right.offset.IsFinite := by
  obtain ⟨-, rfl⟩ := h.spec
  obtain ⟨before, side, op⟩ := c
  cases side with
  | index =>
    obtain ⟨hoffset, hbefore, -⟩ := Matrix4.isFinite_of_corner_mul hcorner
    exact ⟨hbefore, hoffset⟩
  | world =>
    obtain ⟨hoffset, -, hbefore⟩ := Matrix4.isFinite_of_corner_mul hcorner
    exact ⟨hbefore, hoffset⟩

variable {start t : Placement K} {changes : List (Change K)}

theorem Reaches.isFinite_offsets (h : Reaches start changes t)
    (hcorner : Scalar.isFinite t.matrix.corner = true) :
    ∀ c ∈ changes, c.right.offset.IsFinite := by
  induction h with
  | start => exact nofun
  | call _ haccepts ih =>
    obtain ⟨hbefore, hc⟩ := haccepts.isFinite_corner hcorner
    exact List.forall_mem_cons.mpr ⟨hc, ih hbefore⟩

variable [StrictProduct K]

/-- One accepted call keeps the placement affine if the right factor has a finite offset. -/
theorem Accepts.isAffine {c : Change K} {t : Placement K} (h : Accepts c t)
    (hbefore : c.before.matrix.isAffine = true) (hright : c.right.offset.IsFinite) :
    t.matrix.isAffine = true := by
  have hop := h.compose?_eq_ok.1
  obtain ⟨hregular, rfl⟩ := h.spec
  have hlinear := Matrix4.isFinite_of_isRegular hregular
  obtain ⟨before, side, op⟩ := c
  cases side with
  | index =>
    exact Matrix4.isAffine_mul_of_isFinite hbefore hop (Matrix4.isFinite_of_linear_mul hlinear)
      hright
  | world =>
    exact Matrix4.isAffine_mul_of_isFinite hop hbefore (Matrix4.isFinite_of_linear_mul hlinear)
      hright

theorem Reaches.isAffine (h : Reaches start changes t) (hstart : start.matrix.isAffine = true)
    (hfinite : ∀ c ∈ changes, c.right.offset.IsFinite) : t.matrix.isAffine = true := by
  induction h with
  | start => exact hstart
  | call _ haccepts ih =>
    obtain ⟨hc, hchanges⟩ := List.forall_mem_cons.mp hfinite
    exact haccepts.isAffine (ih hchanges) hc

/-- **What can be copied.** A placement that accepted calls have made of one that can be copied has
a finite linear block that can be inverted. It can be copied, and so can a grid that is placed by
it, exactly if the right factor of every call had a finite offset: the matrix that a call on the
index side composed, and the placement that a call on the world side met. Otherwise its corner is
not finite, and a copy is refused because it is not affine. -/
theorem copy?_iff_finite_offsets (hstart : start.copy? = .ok start)
    (h : Reaches start changes t) :
    t.matrix.linear.IsFinite ∧ t.matrix.isRegular = true ∧
      (t.copy? = .ok t ↔ ∀ c ∈ changes, c.right.offset.IsFinite) ∧
      (t.copy? ≠ .ok t →
        Scalar.isFinite t.matrix.corner = false ∧ t.copy? = .error .placementNotAffine) ∧
      ∀ {V : Type} {k : Nat} (g : PlacedGrid K V k), g.placement = t →
        (g.copy? = .ok g ↔ ∀ c ∈ changes, c.right.offset.IsFinite) := by
  obtain ⟨haffine, hregular⟩ := copy?_eq_ok_self_iff.mp hstart
  have hregular := h.isRegular hregular
  have hcopy : t.copy? = .ok t ↔ ∀ c ∈ changes, c.right.offset.IsFinite := by
    rw [copy?_eq_ok_self_iff, and_iff_left hregular]
    constructor
    · intro ht
      exact h.isFinite_offsets (Matrix4.isFinite_of_beq_one (Matrix4.isAffine_iff_beq.mp ht).2)
    · exact h.isAffine haffine
  refine ⟨Matrix4.isFinite_of_isRegular hregular, hregular, hcopy, fun hnot => ?_, ?_⟩
  · have hcorner : Scalar.isFinite t.matrix.corner = false :=
      Bool.eq_false_iff.mpr fun hcorner => hnot (hcopy.mpr (h.isFinite_offsets hcorner))
    refine ⟨hcorner, copy?_of_not_isAffine (Bool.eq_false_iff.mpr fun ht => ?_)⟩
    exact hnot (copy?_eq_ok_self_iff.mpr ⟨ht, hregular⟩)
  · rintro V k g rfl
    exact copy?_grid_iff.trans hcopy

end Changes

open QuarterTurns in
theorem copy?_iff_finite_offsets_of_two_calls :
    let scaling : Matrix4 (Extended ℚ) := .scaling ⟨.finite 2, .finite 2, .finite 2⟩
    let v : Vec3 (Extended ℚ) := ⟨.finite 1, .finite (-4), .finite (1 / 2)⟩
    let scaled : Placement (Extended ℚ) := ⟨identity.composed .world scaling⟩
    let t : Placement (Extended ℚ) := ⟨scaled.composed .index (.shift v)⟩
    let changes := [⟨scaled, .index, .shift v⟩, ⟨identity, .world, scaling⟩]
    Reaches identity changes t ∧ t.copy? = .ok t := by
  intro scaling v scaled t changes
  have hscaled : scaled.matrix.isRegular = true := by decide +kernel
  have ht : t.matrix.isRegular = true := by decide +kernel
  have hreaches : Reaches identity changes t :=
    .call (.call .start (.scale (compose?_eq_ok_iff.mpr ⟨hscaled, rfl⟩)))
      (.shift (compose?_eq_ok_iff.mpr ⟨ht, rfl⟩))
  have hshift : (Matrix4.shift v).offset.IsFinite := by
    intro axis
    cases axis <;> decide +kernel
  have hidentity : (identity : Placement (Extended ℚ)).matrix.offset.IsFinite := by
    intro axis
    cases axis <;> decide +kernel
  have hfinite : ∀ c ∈ changes, c.right.offset.IsFinite := by
    intro c hc
    rw [List.mem_cons, List.mem_singleton] at hc
    obtain rfl | rfl := hc
    · exact hshift
    · exact hidentity
  have hcopy := (copy?_iff_finite_offsets copy?_extended_identity hreaches).2.2.1.mpr hfinite
  exact ⟨hreaches, hcopy⟩

end Placement

end SparseVoxel

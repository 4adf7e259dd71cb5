import SparseVoxel.Proofs.Placement
import SparseVoxel.Proofs.Scalar.QuarterTurns

/-!
# Placements under operations

An `Operation` is a request to compose something with a placement, on one of its sides. As a map of
points it is `Operation.move`, written down without matrices. What a request makes of a placement is
`Operation.run`: the composed placement, or the placement as it was where the request is refused.

After any requests the matrix is affine and can be inverted, and the placement maps points as the
one it started with, composed with the operations that were accepted, each on its side and in the
order of the requests (`runAll_valid`). One request preserves this (`Sound.carryOut?`), although
only the determinant is looked at again; the run is by induction.
-/

namespace SparseVoxel

/-- The point turned about an axis, given the cosine and the sine of the angle. -/
def Axis.turn {K : Type} [Field K] (axis : Axis) (c s : K) (p : Vec3 K) : Vec3 K :=
  match axis with
  | .x => ⟨p.x, c * p.y - s * p.z, s * p.y + c * p.z⟩
  | .y => ⟨c * p.x + s * p.z, p.y, c * p.z - s * p.x⟩
  | .z => ⟨c * p.x - s * p.y, s * p.x + c * p.y, p.z⟩

variable {K : Type} [Field K] [LinearOrder K] [FloorRing K]

/-! ## Matrices as maps of points -/

namespace Matrix4

theorem apply_scaling (v p : Vec3 K) : (scaling v).apply p = v.zipWith (· * ·) p := by
  ext <;> simp [apply, scaling, affine, Matrix3.mulVec, Matrix3.diagonal, Vec3.map, Vec3.zipWith,
    Vec3.replicate, Affine.dot_eq, Exact.zero_eq]

theorem apply_shift (v p : Vec3 K) : (shift v).apply p = p + v := by
  show Matrix3.one.mulVec p + v = p + v
  rw [Matrix3.one_mulVec]

theorem apply_rotation [Trigonometry K] (axis : Axis) (angle : K) (p : Vec3 K) :
    (ofLinear (axis.rotation angle)).apply p =
      axis.turn (Trigonometry.cos angle) (Trigonometry.sin angle) p := by
  cases axis <;> ext <;> simp [apply, ofLinear, affine, Matrix3.mulVec, Axis.rotation, Axis.turn,
    Vec3.map, Vec3.replicate, Affine.dot_eq, Exact.zero_eq, Exact.one_eq] <;> ring

end Matrix4

namespace Placement

/-! ## Operations -/

/-- A map from index space to world space, after or before a move of points. -/
def Side.compose (side : Side) (move map : Vec3 K → Vec3 K) : Vec3 K → Vec3 K :=
  match side with
  | .index => map ∘ move
  | .world => move ∘ map

/-- A request to compose an operation with a placement. A vector or a matrix that cannot be read is
refused as the fault says. -/
inductive Operation (K : Type) where
  | scale (side : Side) (factors : Except Fault (Vec3 K))
  | shift (side : Side) (offset : Except Fault (Vec3 K))
  | rotate (side : Side) (axis : String) (angle : K)
  | matrix (m : Except Fault (Matrix4 K))

namespace Operation

/-- The side on which an operation is composed. -/
def side : Operation K → Side
  | scale side _ => side
  | shift side _ => side
  | rotate side _ _ => side
  | matrix _ => .world

/-- The placement that an operation makes of another one. -/
def carryOut? [Trigonometry K] (t : Placement K) : Operation K → Except Fault (Placement K)
  | scale side factors => do t.scale? side (← factors)
  | shift side offset => do t.shift? side (← offset)
  | rotate side axis angle => t.rotate? side axis angle
  | matrix m => do t.composeWorld? (← m)

/-- What an operation does to points; one that can only be refused does nothing. -/
def move [Trigonometry K] : Operation K → Vec3 K → Vec3 K
  | scale _ (.ok v), p => ⟨v.x * p.x, v.y * p.y, v.z * p.z⟩
  | shift _ (.ok v), p => p + v
  | rotate _ name angle, p => match Axis.ofName? name with
    | some axis => axis.turn (Trigonometry.cos angle) (Trigonometry.sin angle) p
    | none => p
  | matrix (.ok m), p => m.apply p
  | _, p => p

/-- A map from index space to world space with an operation composed on its side. -/
def composeOn [Trigonometry K] (op : Operation K) (map : Vec3 K → Vec3 K) : Vec3 K → Vec3 K :=
  op.side.compose op.move map

end Operation

/-! ## One operation -/

theorem toWorld_of_compose? {t t' : Placement K} (ht : t.Sound) {side : Side} {m : Matrix4 K}
    (hm : m.isAffine = true) (h : t.compose? side m = .ok t') :
    t'.toWorld = side.compose m.apply t.toWorld := by
  obtain ⟨-, rfl⟩ := compose?_eq_ok_iff.mp h
  funext p
  cases side with
  | index => exact Matrix4.apply_mul ht.isAffine hm p
  | world => exact Matrix4.apply_mul hm ht.isAffine p

section Trigonometry

variable [Trigonometry K]

/-- An operation that is accepted composes an affine matrix that maps points as it does. -/
theorem Operation.exists_matrix {op : Operation K} {t t' : Placement K}
    (h : op.carryOut? t = .ok t') : ∃ m : Matrix4 K, m.isAffine = true ∧
      (∀ p, m.apply p = op.move p) ∧ t.compose? op.side m = .ok t' := by
  cases op with
  | scale side factors =>
    obtain ⟨v, rfl, h⟩ := bind_eq_ok.mp h
    exact ⟨.scaling v, Matrix4.isAffine_affine _ _, Matrix4.apply_scaling v, h⟩
  | shift side offset =>
    obtain ⟨v, rfl, h⟩ := bind_eq_ok.mp h
    exact ⟨.shift v, Matrix4.isAffine_affine _ _, Matrix4.apply_shift v, h⟩
  | rotate side name angle =>
    obtain ⟨r, hr, h⟩ := bind_eq_ok.mp h
    obtain ⟨_, -, hr⟩ := bind_eq_ok.mp hr
    cases haxis : Axis.ofName? name with
    | none =>
      rw [haxis] at hr
      cases hr
    | some axis =>
      rw [haxis] at hr
      cases hr
      refine ⟨_, Matrix4.isAffine_affine _ _, fun p => ?_, h⟩
      rw [Operation.move, haxis]
      exact Matrix4.apply_rotation axis angle p
  | matrix m =>
    obtain ⟨m, rfl, h⟩ := bind_eq_ok.mp h
    obtain ⟨hm, h⟩ := composeWorld?_eq_ok_iff.mp h
    exact ⟨m, hm, fun _ => rfl, h⟩

/-- One operation that is accepted. -/
theorem Sound.carryOut? {t t' : Placement K} (ht : t.Sound) {op : Operation K}
    (h : op.carryOut? t = .ok t') : t'.Sound ∧ t'.toWorld = op.composeOn t.toWorld := by
  obtain ⟨m, hm, hmove, hcompose⟩ := op.exists_matrix h
  refine ⟨ht.compose? hm hcompose, ?_⟩
  rw [toWorld_of_compose? ht hm hcompose, Operation.composeOn, funext hmove]

/-! ## Runs -/

namespace Operation

/-- What becomes of a placement by a request: one that is refused leaves it as it is. -/
def run (t : Placement K) (op : Operation K) : Placement K :=
  match op.carryOut? t with
  | .ok t' => t'
  | .error _ => t

/-- What becomes of a placement by requests one after the other. -/
def runAll (t : Placement K) (ops : List (Operation K)) : Placement K :=
  ops.foldl run t

/-- The requests that are accepted, in their order. -/
def accepted (t : Placement K) : List (Operation K) → List (Operation K)
  | [] => []
  | op :: ops => match op.carryOut? t with
    | .ok t' => op :: accepted t' ops
    | .error _ => accepted t ops

/-- A map composed with operations, one after the other, each on its side. -/
def composition (map : Vec3 K → Vec3 K) (ops : List (Operation K)) : Vec3 K → Vec3 K :=
  ops.foldl (fun map op => op.composeOn map) map

end Operation

theorem Sound.runAll {t : Placement K} (ht : t.Sound) (ops : List (Operation K)) :
    (Operation.runAll t ops).Sound ∧ (Operation.runAll t ops).toWorld =
      Operation.composition t.toWorld (Operation.accepted t ops) := by
  induction ops generalizing t with
  | nil => exact ⟨ht, rfl⟩
  | cons op ops ih =>
    show (Operation.runAll (op.run t) ops).Sound ∧ (Operation.runAll (op.run t) ops).toWorld = _
    cases hop : op.carryOut? t with
    | ok t' =>
      obtain ⟨ht', hworld⟩ := ht.carryOut? hop
      obtain ⟨hsound, hruns⟩ := ih ht'
      rw [Operation.run, Operation.accepted, hop]
      refine ⟨hsound, hruns.trans ?_⟩
      rw [hworld]
      rfl
    | error e =>
      rw [Operation.run, Operation.accepted, hop]
      exact ih ht

end Trigonometry

/-! ## What holds of a sound placement -/

/-- The ways in which a placement is made. -/
inductive Built : Placement K → Prop where
  | identity : Built identity
  | ofMatrix {m : Matrix4 K} {t : Placement K} (h : ofMatrix? m = .ok t) : Built t
  | ofEdgeLengths {v : Vec3 K} {t : Placement K} (h : ofEdgeLengths? v = .ok t) : Built t

theorem Sound.bottom_row {t : Placement K} (ht : t.Sound) :
    t.matrix.bottom = .replicate 0 ∧ t.matrix.corner = 1 := by
  obtain ⟨hbottom, hcorner⟩ := Matrix4.isAffine_iff.mp ht.isAffine
  rw [Exact.ofInt_eq, Int.cast_zero] at hbottom
  rw [Exact.ofInt_eq, Int.cast_one] at hcorner
  exact ⟨hbottom, hcorner⟩

variable [IsStrictOrderedRing K]

theorem Built.sound {t : Placement K} (h : t.Built) : t.Sound := by
  cases h with
  | identity => exact sound_identity
  | ofMatrix h => exact sound_of_ofMatrix? h
  | ofEdgeLengths h => exact sound_of_ofMatrix? h

theorem Sound.le_abs_det {t : Placement K} (ht : t.Sound) :
    1 / 10 ^ 12 ≤ |t.matrix.linear.toMatrix.det| := by
  have hdet : (Matrix4.singularBound : K) ≤ |t.matrix.linear.det| :=
    Matrix4.isRegular_iff.mp ht.isRegular
  rwa [Matrix4.singularBound, Exact.tenth_eq, Matrix3.det_eq] at hdet

theorem Sound.toIndex?_toWorld {t : Placement K} (ht : t.Sound) (p : Vec3 K) :
    t.toIndex? (t.toWorld p) = some p ∧ ∃ q, t.toIndex? p = some q ∧ t.toWorld q = p := by
  obtain ⟨inv, hinverse⟩ : ∃ inv, t.matrix.invert? = some inv := ⟨_, if_pos ht.isRegular⟩
  have hindex : ∀ p, t.toIndex? p = some (inv.apply p) := by
    intro p
    rw [toIndex?, inverse?, hinverse, Option.map_some]
  refine ⟨?_, _, hindex p, Matrix4.apply_apply_of_invert? hinverse p⟩
  rw [hindex]
  exact congrArg some (Matrix4.apply_of_invert?_apply hinverse p)

/-- **A placement stays valid.** Whatever operations are requested of a placement, the matrix is
affine with a determinant that is not too small, a request that is refused changes nothing, the map
to the world is the first one composed with the accepted operations, and the map to the index space
undoes it from both sides. -/
theorem runAll_valid [Trigonometry K] {start : Placement K} (hstart : start.Built)
    (ops : List (Operation K)) :
    let t := Operation.runAll start ops
    (t.matrix.bottom = .replicate 0 ∧ t.matrix.corner = 1) ∧
      1 / 10 ^ 12 ≤ |t.matrix.linear.toMatrix.det| ∧
      (∀ op e, Operation.carryOut? t op = .error e → op.run t = t) ∧
      t.toWorld = Operation.composition start.toWorld (Operation.accepted start ops) ∧
      ∀ p, t.toIndex? (t.toWorld p) = some p ∧ ∃ q, t.toIndex? p = some q ∧ t.toWorld q = p := by
  intro t
  obtain ⟨hsound, hworld⟩ := hstart.sound.runAll ops
  have hrefused : ∀ op e, Operation.carryOut? t op = .error e → op.run t = t := by
    intro op e h
    rw [Operation.run, h]
  exact ⟨hsound.bottom_row, hsound.le_abs_det, hrefused, hworld, hsound.toIndex?_toWorld⟩

section QuarterTurn

open QuarterTurns

/-- Operations on both sides, of which a flattening scale and an unknown axis are refused. -/
theorem runAll_valid_of_refusals :
    let start : Placement ℚ := ⟨.scaling ⟨1 / 2, 1 / 2, -2⟩⟩
    let ops : List (Operation ℚ) := [.rotate .world "z" 1, .scale .index (.ok ⟨1, 0, 1⟩),
      .shift .index (.ok ⟨3, -1, 0⟩), .rotate .index "w" 1, .scale .world (.ok ⟨4, 1, 1⟩),
      .matrix (.error .shapeMismatch), .matrix (.ok (.shift ⟨0, 0, 7⟩))]
    let t := Operation.runAll start ops
    ofEdgeLengths? ⟨1 / 2, 1 / 2, -2⟩ = .ok start ∧ (Operation.accepted start ops).length = 4 ∧
      (t.matrix.bottom = .replicate 0 ∧ t.matrix.corner = 1) ∧
      1 / 10 ^ 12 ≤ |t.matrix.linear.toMatrix.det| ∧
      (∀ op e, Operation.carryOut? t op = .error e → op.run t = t) ∧
      t.toWorld = Operation.composition start.toWorld (Operation.accepted start ops) ∧
      ∀ p, t.toIndex? (t.toWorld p) = some p ∧ ∃ q, t.toIndex? p = some q ∧ t.toWorld q = p := by
  intro start ops t
  have hsound : start.Sound := ⟨Matrix4.isAffine_affine _ _, by decide +kernel⟩
  have hstart : ofEdgeLengths? ⟨1 / 2, 1 / 2, -2⟩ = .ok start := hsound.ofMatrix?_eq_ok
  have haccepted : (Operation.accepted start ops).length = 4 := by decide +kernel
  exact ⟨hstart, haccepted, runAll_valid (.ofEdgeLengths hstart) ops⟩

end QuarterTurn

end Placement

end SparseVoxel

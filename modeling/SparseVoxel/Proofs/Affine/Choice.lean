import SparseVoxel.Proofs.Affine.Extended
import SparseVoxel.Proofs.Affine.Parts
import SparseVoxel.Proofs.Matrix.Strict
import SparseVoxel.Proofs.Scalar.QuarterTurns

/-!
# Which choice of signs splits a matrix

The search for the parts of a matrix keeps the best accepted choice of signs so far and ends early
at one that hardly turns. `Chosen` says which choice that comes to without mentioning the search:
an accepted one that turns no more than the tolerance or than any accepted choice, less than every
accepted one before it, none of which would have ended the search. There is at most one
(`Chosen.unique`).

The invariant is `IsBest`: the choices seen so far have not ended the search, and the best of them
is known. One choice keeps it (`IsBest.better`, `IsBest.skip`) and the run of the search follows by
induction (`search_spec`). `ofMatrix?_eq_choice` is the main statement. It holds over every type of
scalars whose finite values are in order and come from finite operands only, so with rounding and
infinities too: an accepted choice rebuilds finite entries, hence its angles are finite
(`isFinite_turn`) and compare.
-/

namespace SparseVoxel.AffineParts

section Choices

variable {K : Type} [Scalar K] [Trigonometry K]

/-- A choice of signs is accepted if it leaves no reflection and the block that is rebuilt from the
Euler angles it leaves is near the given one. -/
structure Accepted (block : Matrix3 K) (norms : Vec3 K) (tolerance : K) (signs : Vec3 K) :
    Prop where
  proper : ¬ (block.divideColumns (norms.zipWith (· * ·) signs)).det < Scalar.ofInt 0
  rebuilds : ∀ i j, Scalar.near (Scalar.ofInt 0) tolerance (block.entry i j)
    ((candidate block norms signs).rebuild.entry i j) = true

/-- The size of the largest angle that a choice of signs leaves. -/
def turn (block : Matrix3 K) (norms signs : Vec3 K) : K :=
  (candidate block norms signs).turn

/-- The choice among listed ones that a search comes to. -/
structure Chosen (block : Matrix3 K) (norms : Vec3 K) (tolerance : K) (choices : List (Vec3 K))
    (signs : Vec3 K) : Prop where
  accepted : Accepted block norms tolerance signs
  /-- It hardly turns, or turns no more than any accepted choice. -/
  least : turn block norms signs ≤ tolerance ∨
    ∀ s ∈ choices, Accepted block norms tolerance s → turn block norms signs ≤ turn block norms s
  /-- The accepted choices before it turn more than it does, and not hardly. -/
  earliest : ∃ earlier later, choices = earlier ++ signs :: later ∧
    ∀ s ∈ earlier, Accepted block norms tolerance s →
      turn block norms signs < turn block norms s ∧ ¬ turn block norms s ≤ tolerance

variable {block : Matrix3 K} {norms : Vec3 K} {tolerance : K}

theorem Chosen.mem {choices : List (Vec3 K)} {signs : Vec3 K}
    (h : Chosen block norms tolerance choices signs) : signs ∈ choices := by
  obtain ⟨earlier, later, rfl, -⟩ := h.earliest
  simp

theorem accepts_iff {signs : Vec3 K} :
    accepts block norms tolerance signs = true ↔ Accepted block norms tolerance signs := by
  unfold accepts
  simp only [Bool.and_eq_true, Bool.not_eq_true', decide_eq_false_iff_not,
    Matrix3.near_eq_true_iff]
  exact ⟨fun h => ⟨h.1, h.2⟩, fun h => ⟨h.proper, h.rebuilds⟩⟩

theorem isFinite_turn [LinearScalar K] [StrictScalar K] [StrictTrigonometry K]
    (hblock : block.IsFinite) {signs : Vec3 K} (h : Accepted block norms tolerance signs) :
    Scalar.isFinite (turn block norms signs) = true := by
  have hrebuild : (candidate block norms signs).rebuild.IsFinite := fun i j =>
    Scalar.isFinite_of_near (hblock i j) (h.rebuilds i j)
  have hangles := Euler.isFinite_of_toMatrix (Matrix3.IsFinite.of_scaleColumns hrebuild).1
  have habs : ∀ axis,
      Scalar.isFinite (Scalar.abs ((candidate block norms signs).angles.get axis)) = true := by
    intro axis
    rw [Scalar.isFinite_abs, hangles]
  exact Scalar.isFinite_greatest (Scalar.isFinite_greatest (habs .x) (habs .y)) (habs .z)

/-! ## One choice -/

/-- An accepted choice that turns no more than those seen, and less than those before it. -/
structure Leads (block : Matrix3 K) (norms : Vec3 K) (tolerance : K) (seen : List (Vec3 K))
    (signs : Vec3 K) : Prop where
  accepted : Accepted block norms tolerance signs
  least : ∀ s ∈ seen, Accepted block norms tolerance s →
    turn block norms signs ≤ turn block norms s
  earliest : ∃ earlier later, seen = earlier ++ signs :: later ∧
    ∀ s ∈ earlier, Accepted block norms tolerance s →
      turn block norms signs < turn block norms s ∧ ¬ turn block norms s ≤ tolerance

/-- The best candidate of choices none of which has ended the search. -/
structure IsBest (block : Matrix3 K) (norms : Vec3 K) (tolerance : K) (seen : List (Vec3 K))
    (best : Option (Candidate K)) : Prop where
  none_ends : ∀ s ∈ seen, Accepted block norms tolerance s → ¬ turn block norms s ≤ tolerance
  of_none : best = none → ∀ s ∈ seen, ¬ Accepted block norms tolerance s
  of_some : ∀ c, best = some c →
    ∃ signs, c = candidate block norms signs ∧ Leads block norms tolerance seen signs

variable {seen : List (Vec3 K)} {signs s : Vec3 K} {best : Option (Candidate K)}

theorem Leads.append (h : Leads block norms tolerance seen signs)
    (hs : Accepted block norms tolerance s → turn block norms signs ≤ turn block norms s) :
    Leads block norms tolerance (seen ++ [s]) signs := by
  obtain ⟨haccepted, hleast, earlier, later, hseen, hearlier⟩ := h
  refine ⟨haccepted, List.forall_mem_append.mpr ⟨hleast, List.forall_mem_singleton.mpr hs⟩, earlier,
    later ++ [s], ?_, hearlier⟩
  rw [hseen, List.append_assoc, List.cons_append]

/-- A choice that is not accepted changes nothing. -/
theorem IsBest.skip (h : IsBest block norms tolerance seen best)
    (hs : ¬ Accepted block norms tolerance s) :
    IsBest block norms tolerance (seen ++ [s]) best := by
  refine ⟨?_, fun hbest => ?_, fun c hc => ?_⟩
  · rw [List.forall_mem_append, List.forall_mem_singleton]
    exact ⟨h.none_ends, fun haccepted => absurd haccepted hs⟩
  · rw [List.forall_mem_append, List.forall_mem_singleton]
    exact ⟨h.of_none hbest, hs⟩
  · obtain ⟨signs, rfl, hleads⟩ := h.of_some c hc
    exact ⟨signs, rfl, hleads.append fun haccepted => absurd haccepted hs⟩

variable [LinearScalar K] (hfinite : ∀ s, Accepted block norms tolerance s →
  Scalar.isFinite (turn block norms s) = true)

include hfinite

/-- An accepted choice that turns less than the one that leads takes its place. -/
theorem Leads.replace (h : Leads block norms tolerance seen signs)
    (hends : ∀ s ∈ seen, Accepted block norms tolerance s → ¬ turn block norms s ≤ tolerance)
    (hs : Accepted block norms tolerance s)
    (hlt : turn block norms s < turn block norms signs) :
    Leads block norms tolerance (seen ++ [s]) s := by
  have hbefore : ∀ s' ∈ seen, Accepted block norms tolerance s' →
      turn block norms s < turn block norms s' := fun s' hs' haccepted =>
    Scalar.lt_of_lt_of_le (hfinite s hs) (hfinite signs h.accepted) (hfinite s' haccepted) hlt
      (h.least s' hs' haccepted)
  refine ⟨hs, ?_, seen, [], rfl,
    fun s' hs' haccepted => ⟨hbefore s' hs' haccepted, hends s' hs' haccepted⟩⟩
  rw [List.forall_mem_append, List.forall_mem_singleton]
  constructor
  · intro s' hs' haccepted
    exact Scalar.le_of_lt (hfinite s hs) (hfinite s' haccepted) (hbefore s' hs' haccepted)
  · exact fun _ => OrderedScalar.le_self_of_isFinite (hfinite s hs)

/-- After an accepted choice the better candidate leads. -/
theorem IsBest.better (h : IsBest block norms tolerance seen best)
    (hs : Accepted block norms tolerance s) :
    ∃ signs, better best (candidate block norms s) = some (candidate block norms signs) ∧
      Leads block norms tolerance (seen ++ [s]) signs := by
  cases best with
  | none =>
    have hnone := h.of_none rfl
    refine ⟨s, if_pos (hfinite s hs), hs, ?_, seen, [], rfl,
      fun s' hs' haccepted => absurd haccepted (hnone s' hs')⟩
    rw [List.forall_mem_append, List.forall_mem_singleton]
    constructor
    · exact fun s' hs' haccepted => absurd haccepted (hnone s' hs')
    · exact fun _ => OrderedScalar.le_self_of_isFinite (hfinite s hs)
  | some c =>
    obtain ⟨signs, rfl, hleads⟩ := h.of_some c rfl
    by_cases hlt : turn block norms s < turn block norms signs
    · exact ⟨s, if_pos hlt, hleads.replace hfinite h.none_ends hs hlt⟩
    · exact ⟨signs, if_neg hlt, hleads.append fun _ =>
        Scalar.le_of_not_lt (hfinite s hs) (hfinite signs hleads.accepted) hlt⟩

omit [LinearScalar K] hfinite

/-! ## The search -/

theorem Leads.chosen (h : Leads block norms tolerance seen signs) (rest : List (Vec3 K))
    (hrest : turn block norms signs ≤ tolerance ∨ rest = []) :
    Chosen block norms tolerance (seen ++ rest) signs := by
  obtain ⟨haccepted, hleast, earlier, later, rfl, hearlier⟩ := h
  refine ⟨haccepted, hrest.imp_right fun hrest => ?_, earlier, later ++ rest, by simp, hearlier⟩
  subst hrest
  rwa [List.append_nil]

/-- What a search ends with: nothing if no choice is accepted, or else the candidate of the chosen
one. -/
structure IsFound (block : Matrix3 K) (norms : Vec3 K) (tolerance : K) (choices : List (Vec3 K))
    (found : Option (Candidate K)) : Prop where
  of_none : found = none → ∀ s ∈ choices, ¬ Accepted block norms tolerance s
  of_some : ∀ c, found = some c →
    ∃ signs, c = candidate block norms signs ∧ Chosen block norms tolerance choices signs

variable [LinearScalar K]

include hfinite

/-- A search that goes on from the best of the choices seen finds the chosen one of all. -/
theorem search_spec {rest : List (Vec3 K)} (h : IsBest block norms tolerance seen best) :
    IsFound block norms tolerance (seen ++ rest) (search block norms tolerance best rest) := by
  -- Either the choice at hand ends the search, or it joins those seen.
  induction rest generalizing seen best with
  | nil =>
    rw [List.append_nil]
    refine ⟨h.of_none, fun c hc => ?_⟩
    obtain ⟨signs, rfl, hleads⟩ := h.of_some c hc
    have hchosen := hleads.chosen [] (Or.inr rfl)
    rw [List.append_nil] at hchosen
    exact ⟨signs, rfl, hchosen⟩
  | cons s rest ih =>
    have hlist : seen ++ s :: rest = (seen ++ [s]) ++ rest := by simp
    rw [hlist]
    unfold search
    split
    · next haccepts =>
      have hs := accepts_iff.mp haccepts
      obtain ⟨signs, hbetter, hleads⟩ := h.better hfinite hs
      simp only [hbetter]
      split
      · next hturn =>
        have hle : turn block norms signs ≤ tolerance :=
          OrderedScalar.le_trans (hleads.least s (by simp) hs) hturn
        refine ⟨fun hnone => absurd hnone (Option.some_ne_none _), fun c hc =>
          ⟨signs, (Option.some.inj hc).symm, ?_⟩⟩
        exact hleads.chosen rest (Or.inl hle)
      · next hturn =>
        have hends := List.forall_mem_append.mpr
          ⟨h.none_ends, List.forall_mem_singleton.mpr fun _ => hturn⟩
        refine ih ⟨hends, fun hnone => absurd hnone (Option.some_ne_none _), fun c hc => ?_⟩
        exact ⟨signs, (Option.some.inj hc).symm, hleads⟩
    · next haccepts => exact ih (h.skip (mt accepts_iff.mpr haccepts))

/-- At most one choice is chosen. -/
theorem Chosen.unique {choices : List (Vec3 K)} {signs signs' : Vec3 K}
    (h : Chosen block norms tolerance choices signs)
    (h' : Chosen block norms tolerance choices signs') : signs = signs' := by
  -- of two chosen ones none comes before the other
  have hnot : ∀ {a b : Vec3 K} {earlier later : List (Vec3 K)},
      Chosen block norms tolerance choices a → Accepted block norms tolerance b →
      choices = earlier ++ b :: later →
      (∀ s ∈ earlier, Accepted block norms tolerance s →
        turn block norms b < turn block norms s ∧ ¬ turn block norms s ≤ tolerance) →
      a ∉ earlier := by
    intro a b earlier later ha hb hchoices hearlier hmem
    obtain ⟨hlt, hturn⟩ := hearlier a hmem ha.accepted
    refine (LinearScalar.lt_iff (hfinite b hb) (hfinite a ha.accepted)).mp hlt ?_
    exact ha.least.resolve_left hturn b (by simp [hchoices]) hb
  obtain ⟨earlier, later, hchoices, hearlier⟩ := h.earliest
  obtain ⟨earlier', later', hchoices', hearlier'⟩ := h'.earliest
  have hbefore := hnot h' h.accepted hchoices hearlier
  have hbefore' := hnot h h'.accepted hchoices' hearlier'
  rw [hchoices, List.append_eq_append_iff] at hchoices'
  rcases hchoices' with ⟨between, rfl, hrest⟩ | ⟨between, rfl, hrest⟩
  · cases between with
    | nil => exact (List.cons.inj hrest).1
    | cons a between =>
      obtain rfl := (List.cons.inj hrest).1
      exact absurd (by simp) hbefore'
  · cases between with
    | nil => exact (List.cons.inj hrest).1.symm
    | cons a between =>
      obtain rfl := (List.cons.inj hrest).1
      exact absurd (by simp) hbefore

theorem search_found (choices : List (Vec3 K)) : IsFound block norms tolerance choices
    (search block norms tolerance none choices) := by
  have hstart : IsBest block norms tolerance [] none := ⟨nofun, fun _ => nofun, nofun⟩
  exact search_spec hfinite hstart

/-- A search from the beginning finds the candidate of the chosen one. -/
theorem search_eq_some_iff {choices : List (Vec3 K)} {c : Candidate K} :
    search block norms tolerance none choices = some c ↔
      ∃ signs, Chosen block norms tolerance choices signs ∧ c = candidate block norms signs := by
  have hfound := search_found hfinite choices
  constructor
  · intro h
    obtain ⟨signs, hc, hchosen⟩ := hfound.of_some c h
    exact ⟨signs, hchosen, hc⟩
  · rintro ⟨signs, hchosen, rfl⟩
    cases hsearch : search block norms tolerance none choices with
    | none => exact absurd hchosen.accepted (hfound.of_none hsearch signs hchosen.mem)
    | some c =>
      obtain ⟨signs', rfl, hchosen'⟩ := hfound.of_some c hsearch
      rw [hchosen.unique hfinite hchosen']

theorem exists_chosen {choices : List (Vec3 K)}
    (h : ∃ s ∈ choices, Accepted block norms tolerance s) :
    ∃ signs, Chosen block norms tolerance choices signs := by
  obtain ⟨s, hs, haccepted⟩ := h
  have hfound := search_found hfinite choices
  cases hsearch : search block norms tolerance none choices with
  | none => exact absurd haccepted (hfound.of_none hsearch s hs)
  | some c =>
    obtain ⟨signs, -, hchosen⟩ := hfound.of_some c hsearch
    exact ⟨signs, hchosen⟩

end Choices

/-! ## Splitting a matrix -/

/-- **The choice of signs.** Take an affine matrix of finite entries whose columns are all longer
than the tolerance. If any choice of signs is accepted then exactly one is chosen, in the order in
which they are tried. The matrix is not split exactly if none is accepted, or if the lengths of the
columns are not uniform and the chosen one turns more than the tolerance. Otherwise the scale and
the rotation are those of the chosen one. -/
theorem ofMatrix?_eq_choice {K : Type} [Scalar K] [Trigonometry K] [LinearScalar K] [StrictScalar K]
    [StrictTrigonometry K] {m : Matrix4 K} {tolerance : K} (haffine : m.isAffine = true)
    (hfinite : m.isFinite = true)
    (hnorms : ∀ axis, ¬ m.linear.columnNorms.get axis ≤ tolerance) :
    let block := m.linear
    let norms := block.columnNorms
    ((∃ signs ∈ signChoices, Accepted block norms tolerance signs) →
        ∃! signs, Chosen block norms tolerance signChoices signs) ∧
      (ofMatrix? m tolerance = none ↔
        (∀ signs ∈ signChoices, ¬ Accepted block norms tolerance signs) ∨
          ∃ signs, Chosen block norms tolerance signChoices signs ∧
            isUniform norms tolerance = false ∧ tolerance < turn block norms signs) ∧
      ∀ d, ofMatrix? m tolerance = some d ↔
        ∃ signs, Chosen block norms tolerance signChoices signs ∧
          (isUniform norms tolerance = true ∨ ¬ tolerance < turn block norms signs) ∧
          d = ⟨(candidate block norms signs).scale, (candidate block norms signs).angles,
            m.offset⟩ := by
  intro block norms
  have hturn : ∀ s, Accepted block norms tolerance s →
      Scalar.isFinite (turn block norms s) = true := fun _ =>
    isFinite_turn (Matrix4.isFinite_entries hfinite).1
  have hexists : (∃ signs ∈ signChoices, Accepted block norms tolerance signs) →
      ∃ signs, Chosen block norms tolerance signChoices signs := exists_chosen hturn
  have hsome : ∀ d, ofMatrix? m tolerance = some d ↔
      ∃ signs, Chosen block norms tolerance signChoices signs ∧
        (isUniform norms tolerance = true ∨ ¬ tolerance < turn block norms signs) ∧
        d = ⟨(candidate block norms signs).scale, (candidate block norms signs).angles,
          m.offset⟩ := by
    intro d
    rw [ofMatrix?_eq_some_iff, search_eq_some_iff hturn]
    obtain ⟨scale, rotation, shift⟩ := d
    constructor
    · rintro ⟨-, -, ⟨signs, hchosen, hcandidate⟩, hturns, rfl⟩
      rw [hcandidate] at hturns
      exact ⟨signs, hchosen, hturns, by rw [← hcandidate]⟩
    · rintro ⟨signs, hchosen, hturns, hd⟩
      cases hd
      exact ⟨⟨haffine, hfinite⟩, hnorms, ⟨signs, hchosen, rfl⟩, hturns, rfl⟩
  refine ⟨fun haccepted => ?_, ?_, hsome⟩
  · obtain ⟨signs, hchosen⟩ := hexists haccepted
    exact ⟨signs, hchosen, fun _ hchosen' => hchosen'.unique hturn hchosen⟩
  · rw [Option.eq_none_iff_forall_ne_some]
    constructor
    · intro hnone
      refine or_iff_not_imp_left.mpr fun haccepted => ?_
      push Not at haccepted
      obtain ⟨signs, hchosen⟩ := hexists haccepted
      refine ⟨signs, hchosen, ?_⟩
      by_contra hturns
      rw [not_and_or, Bool.not_eq_false] at hturns
      exact hnone _ ((hsome _).mpr ⟨signs, hchosen, hturns, rfl⟩)
    · intro h d hd
      obtain ⟨signs, hchosen, hturns, -⟩ := (hsome d).mp hd
      rcases h with hnone | ⟨signs', hchosen', huneven, hlt⟩
      · exact hnone signs hchosen.mem hchosen.accepted
      · obtain rfl := hchosen.unique hturn hchosen'
        rcases hturns with huniform | hnot
        · exact absurd huniform (Bool.eq_false_iff.mp huneven)
        · exact hnot hlt

section HalfTurn

open QuarterTurns

/-- Two reflected axes: all four choices that leave no reflection are accepted, the first of them
as a half turn, and the last one is chosen, which does not turn at all. -/
theorem ofMatrix?_eq_choice_of_half_turn :
    let m : Matrix4 (Extended ℚ) :=
      Matrix4.map Extended.finite (.affine ⟨⟨-2, 0, 0⟩, ⟨0, -2, 0⟩, ⟨0, 0, 2⟩⟩ ⟨5, -4, 1 / 2⟩)
    let t : Extended ℚ := .finite (1 / 1000)
    let norms := m.linear.columnNorms
    m.isAffine = true ∧ m.isFinite = true ∧ (∀ axis, ¬ norms.get axis ≤ t) ∧
      (∃ signs ∈ signChoices, Accepted m.linear norms t signs) ∧
      (signChoices.map (accepts m.linear norms t) =
        [true, false, false, true, false, true, true, false]) ∧
      (∃! signs, Chosen m.linear norms t signChoices signs) ∧
      ∃ d, ofMatrix? m t = some d ∧ ∃ signs, Chosen m.linear norms t signChoices signs ∧
        d = ⟨(candidate m.linear norms signs).scale, (candidate m.linear norms signs).angles,
          m.offset⟩ ∧
        d.scale.map Extended.value = ⟨-2, -2, 2⟩ ∧ d.rotation.map Extended.value = ⟨0, 0, 0⟩ := by
  intro m t norms
  have haffine : m.isAffine = true := by decide +kernel
  have hfinite : m.isFinite = true := by decide +kernel
  have hnorms : ∀ axis, ¬ norms.get axis ≤ t := by
    intro axis
    cases axis <;> decide +kernel
  have haccepts : signChoices.map (accepts m.linear norms t) =
      [true, false, false, true, false, true, true, false] := by decide +kernel
  have haccepted : ∃ signs ∈ signChoices, Accepted m.linear norms t signs := by
    have hmem : true ∈ signChoices.map (accepts m.linear norms t) := by
      rw [haccepts]
      decide
    obtain ⟨signs, hsigns, htrue⟩ := List.mem_map.mp hmem
    exact ⟨signs, hsigns, accepts_iff.mp htrue⟩
  have hparts : (ofMatrix? m t).map (fun d =>
      (d.scale.map Extended.value, d.rotation.map Extended.value)) =
        some (⟨-2, -2, 2⟩, ⟨0, 0, 0⟩) := by decide +kernel
  obtain ⟨d, hd, hvalues⟩ := Option.map_eq_some_iff.mp hparts
  obtain ⟨hscale, hrotation⟩ := Prod.mk.inj hvalues
  obtain ⟨hunique, -, hsome⟩ := ofMatrix?_eq_choice haffine hfinite hnorms
  obtain ⟨signs, hchosen, -, hd'⟩ := (hsome d).mp hd
  exact ⟨haffine, hfinite, hnorms, haccepted, haccepts, hunique haccepted, d, hd, signs, hchosen,
    hd', hscale, hrotation⟩

end HalfTurn

end SparseVoxel.AffineParts

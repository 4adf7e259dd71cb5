import Mathlib.Logic.Relation
import SparseVoxel.Resampler.Traversal

/-!
# A pass step by step

`Traversal.run` is a loop over pending regions. A `Stage` is what it holds between two rounds, and
`Step` relates a stage to the next one: the first pending region is replaced by its halves, or
finished in one of three ways. `run_spec` says that a run is a chain of steps, either to a stage at
which nothing is pending or to one whose next round is refused, so that a fact about runs follows
from what one step preserves. A step makes the pending regions lighter (`Step.weight_lt`), which
bounds the number of steps (`length_chain_le`).
-/

namespace SparseVoxel

namespace Traversal

/-- What is still to be done, what has been counted, and what the destination holds. -/
structure Stage (W : Type) (m : Nat) where
  pending : List Region
  progress : Progress
  dest : Grid W m

/-- The stage at which a pass over a box begins. -/
def Stage.start {W : Type} {m : Nat} (reach : Box) (dest : Grid W m) : Stage W m :=
  ⟨(Region.ofBox? reach).toList, .start, dest⟩

variable {K V W : Type} {k m : Nat} [Scalar K] [BEq V] [VoxelValue K V] [Sized V] [BEq W] [Sized W]
variable (t : Traversal K k) (transfer : Transfer V W) (source : Grid W m → Grid V k)

/-- One round of the loop. -/
inductive Step : Stage W m → Stage W m → Prop
  /-- The first pending region is replaced by its halves. -/
  | split {r : Region} {rest : List Region} {p : Progress} {dest : Grid W m} {halves : r.Halves}
      (haction : t.action? (source dest) r = .ok (.split halves)) :
      Step ⟨r :: rest, p, dest⟩ ⟨halves.upper :: halves.lower :: rest, p, dest⟩
  /-- The first pending region is finished. -/
  | finish {r : Region} {rest : List Region} {p p' : Progress} {dest dest' : Grid W m}
      {how : Treatment V} (haction : t.action? (source dest) r = .ok (.finish how))
      (hfinish : t.finish? transfer (source dest) r p how dest = .ok p' dest') :
      Step ⟨r :: rest, p, dest⟩ ⟨rest, p', dest'⟩

/-- A round of the loop that is refused, with the destination it leaves. -/
inductive Refused : Stage W m → Fault → Grid W m → Prop
  | action {r : Region} {rest : List Region} {p : Progress} {dest : Grid W m} {e : Fault}
      (haction : t.action? (source dest) r = .error e) : Refused ⟨r :: rest, p, dest⟩ e dest
  | finish {r : Region} {rest : List Region} {p : Progress} {dest dest' : Grid W m} {e : Fault}
      {how : Treatment V} (haction : t.action? (source dest) r = .ok (.finish how))
      (hfinish : t.finish? transfer (source dest) r p how dest = .error e dest') :
      Refused ⟨r :: rest, p, dest⟩ e dest'

/-- A stage that the loop comes to from another one. -/
abbrev Reaches : Stage W m → Stage W m → Prop :=
  Relation.ReflTransGen (Step t transfer source)

/-- Where a run from a stage may end: where nothing is pending, or where a round is refused. -/
def Ends (s : Stage W m) : EStateM.Result Fault (Grid W m) Progress → Prop
  | .ok p dest => Reaches t transfer source s ⟨[], p, dest⟩
  | .error e dest => ∃ s', Reaches t transfer source s s' ∧ Refused t transfer source s' e dest

variable {t transfer source}

/-! ## Runs as chains of steps -/

theorem Ends.head {s s' : Stage W m} {outcome : EStateM.Result Fault (Grid W m) Progress}
    (hstep : Step t transfer source s s') (h : Ends t transfer source s' outcome) :
    Ends t transfer source s outcome := by
  cases outcome with
  | ok p dest => exact Relation.ReflTransGen.head hstep h
  | error e dest =>
    obtain ⟨s'', hreaches, hrefused⟩ := h
    exact ⟨s'', Relation.ReflTransGen.head hstep hreaches, hrefused⟩

theorem run_nil (p : Progress) (dest : Grid W m) :
    t.run transfer source p [] dest = .ok p dest := by
  rw [run]
  rfl

theorem run_cons (p : Progress) (r : Region) (rest : List Region) (dest : Grid W m) :
    t.run transfer source p (r :: rest) dest =
      match t.action? (source dest) r with
      | .error e => .error e dest
      | .ok (.split halves) =>
        t.run transfer source p (halves.upper :: halves.lower :: rest) dest
      | .ok (.finish how) =>
        match t.finish? transfer (source dest) r p how dest with
        | .ok p' dest' => t.run transfer source p' rest dest'
        | .error e dest' => .error e dest' := by
  rw [run]
  refine (Grid.Attempt.check_bind (t.action? (source dest) r) _ dest).trans ?_
  cases t.action? (source dest) r with
  | error e => rfl
  | ok action =>
    cases action with
    | split halves => rfl
    | finish how =>
      refine (Grid.Attempt.bind_eq (t.finish? transfer (source dest) r p how) _ dest).trans ?_
      cases hfinish : t.finish? transfer (source dest) r p how dest with
      | ok p' dest' => simp only [hfinish]
      | error e dest' => simp only [hfinish]

/-- A run is a chain of steps to the end, or to a round that is refused. -/
theorem run_spec (s : Stage W m) :
    Ends t transfer source s (t.run transfer source s.progress s.pending s.dest) := by
  obtain ⟨pending, p, dest⟩ := s
  induction hweight : Region.weight pending using Nat.strongRecOn generalizing pending p dest with
  | ind n ih =>
    subst hweight
    cases pending with
    | nil =>
      rw [run_nil]
      exact Relation.ReflTransGen.refl
    | cons r rest =>
      rw [run_cons]
      cases haction : t.action? (source dest) r with
      | error e => exact ⟨_, .refl, .action haction⟩
      | ok action =>
        cases action with
        | split halves =>
          exact .head (.split haction) (ih _ (Region.weight_halves_lt r halves rest) _ p dest rfl)
        | finish how =>
          cases hfinish : t.finish? transfer (source dest) r p how dest with
          | error e dest' =>
            simp only [hfinish]
            exact ⟨_, .refl, .finish haction hfinish⟩
          | ok p' dest' =>
            simp only [hfinish]
            exact .head (.finish haction hfinish)
              (ih _ (Region.weight_rest_lt r rest) _ p' dest' rfl)

theorem run_of_step {s s' : Stage W m} (h : Step t transfer source s s') :
    t.run transfer source s.progress s.pending s.dest =
      t.run transfer source s'.progress s'.pending s'.dest := by
  cases h with
  | split haction => rw [run_cons, haction]
  | finish haction hfinish =>
    rw [run_cons, haction]
    simp only [hfinish]

/-- What is reached when nothing is pending is the outcome of the run. -/
theorem run_of_reaches {s : Stage W m} {p : Progress} {dest : Grid W m}
    (h : Reaches t transfer source s ⟨[], p, dest⟩) :
    t.run transfer source s.progress s.pending s.dest = .ok p dest := by
  induction h using Relation.ReflTransGen.head_induction_on with
  | refl => exact run_nil p dest
  | head hstep _ ih => exact (run_of_step hstep).trans ih

/-! ## The number of steps -/

theorem Step.weight_lt {s s' : Stage W m} (h : Step t transfer source s s') :
    Region.weight s'.pending < Region.weight s.pending := by
  cases h with
  | split _ => exact Region.weight_halves_lt _ _ _
  | finish _ _ => exact Region.weight_rest_lt _ _

/-- No chain is longer than the weight it begins with, if every step makes it lighter. -/
theorem length_le_weight {α : Type} {R : α → α → Prop} (weight : α → Nat)
    (hlt : ∀ {a b}, R a b → weight b < weight a) {n : Nat} {f : Nat → α}
    (h : ∀ i < n, R (f i) (f (i + 1))) : n ≤ weight (f 0) := by
  have hsum : ∀ i ≤ n, i + weight (f i) ≤ weight (f 0) := by
    intro i
    induction i with
    | zero => intro _; omega
    | succ i ih =>
      intro hi
      have hstep := hlt (h i hi)
      have hle := ih (by omega)
      omega
  have := hsum n (Nat.le_refl n)
  omega

/-- No chain of steps is longer than the weight of the regions it begins with. -/
theorem length_chain_le {n : Nat} {f : Nat → Stage W m}
    (h : ∀ i < n, Step t transfer source (f i) (f (i + 1))) :
    n ≤ Region.weight (f 0).pending :=
  length_le_weight (fun s => Region.weight s.pending) (fun hstep => hstep.weight_lt) h

end Traversal

end SparseVoxel

import SparseVoxel.Proofs.Resampler.Plan
import SparseVoxel.Proofs.Resampler.Settled

/-!
# Passes in any order

The loop of a pass takes the pending region that was added last. `StepOn` is a round on any of the
pending regions, so chains of such rounds (`ReachesAny`) are the passes under every rule for
choosing the next region, whatever the rule looks at.

At a `Stage.Ready` stage every pending region has a plan and no two of them have a voxel in common.
What the tasks still to be done will make of the destination and of the counts is the outlook of
the stage (`Stage.outlook`, `Stage.tally`). A round changes neither (`Stage.Ready.step`), since
tasks that have no voxel in common may be exchanged, and where nothing is pending the outlook is
what has come out. So all orders end alike: this is `Resampler.transform_in_any_order`.
-/

namespace SparseVoxel

theorem Region.weight_perm {as bs : List Region} (h : as.Perm bs) : weight as = weight bs := by
  induction h with
  | nil => rfl
  | cons r _ ih => exact congrArg (2 * r.volume - 1 + ·) ih
  | swap r q rest => exact Nat.add_left_comm _ _ _
  | trans _ _ ih ih' => exact ih.trans ih'

namespace Traversal

variable {K V W : Type} {k m : Nat} [Scalar K] [BEq V] [VoxelValue K V] [Sized V]

section Rounds

variable [BEq W] [Sized W] (t : Traversal K k) (transfer : Transfer V W) (source : Grid V k)

/-- One round of the loop on a region that is pending, wherever it stands. -/
def StepOn (r : Region) (s s' : Stage W m) : Prop :=
  ∃ rest, s.pending.Perm (r :: rest) ∧
    Step t transfer (fun _ => source) ⟨r :: rest, s.progress, s.dest⟩ s'

/-- One round of the loop on any pending region. -/
def StepAny (s s' : Stage W m) : Prop :=
  ∃ r, StepOn t transfer source r s s'

/-- A stage that the loop can come to from another one, taking the pending regions in any order. -/
abbrev ReachesAny : Stage W m → Stage W m → Prop :=
  Relation.ReflTransGen (StepAny t transfer source)

variable {t transfer source}

theorem Step.any {s s' : Stage W m} (h : Step t transfer (fun _ => source) s s') :
    StepAny t transfer source s s' := by
  cases h with
  | split haction => exact ⟨_, _, .refl _, .split haction⟩
  | finish haction hfinish => exact ⟨_, _, .refl _, .finish haction hfinish⟩

theorem Reaches.any {s s' : Stage W m} (h : Reaches t transfer (fun _ => source) s s') :
    ReachesAny t transfer source s s' :=
  h.lift id fun _ _ => Step.any

theorem StepAny.weight_lt {s s' : Stage W m} (h : StepAny t transfer source s s') :
    Region.weight s'.pending < Region.weight s.pending := by
  obtain ⟨r, rest, hperm, hstep⟩ := h
  rw [Region.weight_perm hperm]
  exact hstep.weight_lt

end Rounds

/-! ## What is still to come -/

section Outlook

variable (t : Traversal K k) (transfer : Transfer V W) (source : Grid V k)

/-- The tasks of the pending regions. A region without a plan adds none. -/
def Stage.tasks (s : Stage W m) : List (Task W) :=
  s.pending.flatMap fun r => (t.plan? transfer source s.dest.background r).toOption.getD []

/-- What the tasks of the pending regions will count. -/
def Stage.tally (s : Stage W m) (reach : Box) : Stats :=
  (s.tasks t transfer source).foldl (fun stats task => task.record stats) (s.progress.stats reach)

/-- What the tasks of the pending regions will have stored under a key. -/
def Stage.outlook [BEq W] (s : Stage W m) (key : Coord) : Option (Block W m) :=
  (s.tasks t transfer source).foldl (fun stored task => task.edit s.dest.unset key stored)
    (s.dest.block? key)

/-- Every pending region has a plan, and no two pending regions have a voxel in common. -/
structure Stage.Ready (s : Stage W m) : Prop where
  apart : s.pending.Pairwise fun a b => ∀ c, c ∈ a.box → c ∉ b.box
  planned : ∀ r ∈ s.pending, ∃ tasks, t.plan? transfer source s.dest.background r = .ok tasks

/-- Two stages from which the same is to come. -/
structure Stage.Agrees [BEq W] (s s' : Stage W m) : Prop where
  background : s'.dest.background = s.dest.background
  tally : ∀ reach, s'.tally t transfer source reach = s.tally t transfer source reach
  outlook : ∀ key, s'.outlook t transfer source key = s.outlook t transfer source key

end Outlook

variable {t : Traversal K k} {transfer : Transfer V W} {source : Grid V k}

/-! ## What one round does -/

theorem Stage.tasks_cons {r : Region} {rest : List Region} {p : Progress} {dest : Grid W m}
    {tasks : List (Task W)} (h : t.plan? transfer source dest.background r = .ok tasks) :
    Stage.tasks t transfer source ⟨r :: rest, p, dest⟩ =
      tasks ++ Stage.tasks t transfer source ⟨rest, p, dest⟩ := by
  simp only [Stage.tasks, List.flatMap_cons, h]
  rfl

/-- The tasks still to be done keep to their regions, which have no voxel in common. -/
theorem Stage.Ready.tasks (hmachine : t.machine = .ideal) {s : Stage W m}
    (h : s.Ready t transfer source) :
    (∀ task ∈ s.tasks t transfer source, task.Inside) ∧
      (s.tasks t transfer source).Pairwise Task.Apart := by
  have hplan : ∀ r ∈ s.pending, t.plan? transfer source s.dest.background r =
      .ok ((t.plan? transfer source s.dest.background r).toOption.getD []) := by
    intro r hr
    obtain ⟨tasks, htasks⟩ := h.planned r hr
    rw [htasks]
    rfl
  constructor
  · intro task htask
    obtain ⟨r, hr, htask⟩ := List.mem_flatMap.mp htask
    exact inside_of_plan? hmachine (hplan r hr) task htask
  · refine List.pairwise_flatMap.mpr ⟨fun r hr => ?_, ?_⟩
    · have hdisjoint := (partitions_of_plan? (hplan r hr)).disjoint
      rwa [List.pairwise_map] at hdisjoint
    · refine h.apart.imp_of_mem fun {q r} hq hr hapart a ha b hb c hc hc' => ?_
      have hmemq := (partitions_of_plan? (hplan q hq)).cover c
      have hmemr := (partitions_of_plan? (hplan r hr)).cover c
      exact hapart c (hmemq.mpr ⟨_, List.mem_map_of_mem ha, hc⟩)
        (hmemr.mpr ⟨_, List.mem_map_of_mem hb, hc'⟩)

theorem Stage.Ready.perm {pending pending' : List Region} {p : Progress} {dest : Grid W m}
    (hperm : pending.Perm pending') (h : Stage.Ready t transfer source ⟨pending, p, dest⟩) :
    Stage.Ready t transfer source ⟨pending', p, dest⟩ where
  apart := (hperm.pairwise_iff fun hab c hc hc' => hab c hc' hc).mp h.apart
  planned r hr := h.planned r (hperm.mem_iff.mpr hr)

section Writing

variable [BEq W]

theorem Stage.Agrees.trans {s s' s'' : Stage W m} (h : s.Agrees t transfer source s')
    (h' : s'.Agrees t transfer source s'') : s.Agrees t transfer source s'' where
  background := h'.background.trans h.background
  tally reach := (h'.tally reach).trans (h.tally reach)
  outlook key := (h'.outlook key).trans (h.outlook key)

/-- The order of the pending regions does not matter to what is to come. -/
theorem Stage.Ready.agrees_of_perm (hmachine : t.machine = .ideal) {pending pending' : List Region}
    (hperm : pending.Perm pending') {p : Progress} {dest : Grid W m}
    (h : Stage.Ready t transfer source ⟨pending, p, dest⟩) :
    Stage.Agrees t transfer source ⟨pending, p, dest⟩ ⟨pending', p, dest⟩ := by
  have htasks := hperm.flatMap_right
    fun r => (t.plan? transfer source dest.background r).toOption.getD []
  obtain ⟨hinside, hapart⟩ := h.tasks hmachine
  refine ⟨rfl, fun reach => ?_, fun key => ?_⟩
  · exact (htasks.foldl_eq' (fun a _ b _ stats => Task.record_comm a b stats) _).symm
  · refine (htasks.foldl_eq' (fun a ha b hb stored => ?_) _).symm
    by_cases hab : a = b
    · rw [hab]
    · exact Task.edit_comm (hinside a ha) (hinside b hb)
        (hapart.forall ha hb hab) dest.unset key stored

variable [Sized W]

/-- A round keeps the pending regions ready, and does not change what is to come. -/
theorem Stage.Ready.step (hmachine : t.machine = .ideal) {s s' : Stage W m}
    (h : s.Ready t transfer source) (hstep : StepAny t transfer source s s') :
    s'.Ready t transfer source ∧ s.Agrees t transfer source s' := by
  obtain ⟨r, rest, hperm, hstep⟩ := hstep
  obtain ⟨pending, p, dest⟩ := s
  have hagrees := h.agrees_of_perm hmachine hperm
  replace h := h.perm hperm
  obtain ⟨hr, hrest⟩ := List.forall_mem_cons.mp h.planned
  obtain ⟨tasks, hplan⟩ := hr
  cases hstep with
  | @split _ _ _ _ halves haction =>
    rw [plan?_of_split haction] at hplan
    obtain ⟨upper, hupper, hplan⟩ := bind_eq_ok.mp hplan
    obtain ⟨lower, hlower, hplan⟩ := bind_eq_ok.mp hplan
    refine ⟨⟨(action?_shares haction).pairwise h.apart, ?_⟩, hagrees.trans ?_⟩
    · exact List.forall_mem_cons.mpr ⟨⟨upper, hupper⟩,
        List.forall_mem_cons.mpr ⟨⟨lower, hlower⟩, hrest⟩⟩
    · have htasks : Stage.tasks t transfer source ⟨halves.upper :: halves.lower :: rest, p, dest⟩ =
          Stage.tasks t transfer source ⟨r :: rest, p, dest⟩ := by
        have hr := (plan?_of_split haction).trans (bind_eq_ok.mpr ⟨upper, hupper,
          bind_eq_ok.mpr ⟨lower, hlower, rfl⟩⟩)
        rw [Stage.tasks_cons hupper, Stage.tasks_cons hlower, Stage.tasks_cons hr,
          List.append_assoc]
      exact ⟨rfl, fun reach => by simp only [Stage.tally, htasks],
        fun key => by simp only [Stage.outlook, htasks]⟩
  | @finish _ _ _ p' _ dest' how haction hfinish =>
    rw [finish?_eq hmachine] at hfinish
    split at hfinish
    · cases hfinish
    · next effect heffect =>
      cases hfinish
      have hplan := (plan?_of_finish haction).trans (bind_eq_ok.mpr ⟨effect, heffect, rfl⟩)
      have hbackground := Task.background_apply ⟨r, effect⟩ dest
      refine ⟨⟨(List.pairwise_cons.mp h.apart).2, ?_⟩, hagrees.trans ⟨hbackground, ?_, ?_⟩⟩
      · intro q hq
        rw [hbackground]
        exact hrest q hq
      · intro reach
        simp only [Stage.tally, Stage.tasks_cons hplan, List.singleton_append, List.foldl_cons,
          Task.stats_log]
        simp only [Stage.tasks, hbackground]
      · intro key
        simp only [Stage.outlook, Stage.tasks_cons hplan, List.singleton_append, List.foldl_cons,
          Task.block?_apply, Task.unset_apply]
        simp only [Stage.tasks, hbackground]

theorem Stage.Ready.of_reaches (hmachine : t.machine = .ideal) {s s' : Stage W m}
    (h : s.Ready t transfer source) (hreaches : ReachesAny t transfer source s s') :
    s'.Ready t transfer source ∧ s.Agrees t transfer source s' := by
  induction hreaches with
  | refl => exact ⟨h, rfl, fun _ => rfl, fun _ => rfl⟩
  | tail _ hstep ih =>
    obtain ⟨hready, hagrees⟩ := ih.1.step hmachine hstep
    exact ⟨hready, ih.2.trans hagrees⟩

/-- Whichever pending region is taken, the round is not refused. -/
theorem Stage.Ready.exists_step (hmachine : t.machine = .ideal) {s : Stage W m}
    (h : s.Ready t transfer source) {r : Region} (hr : r ∈ s.pending) :
    ∃ s', StepOn t transfer source r s s' := by
  obtain ⟨before, after, hpending⟩ := List.append_of_mem hr
  have hperm : s.pending.Perm (r :: (before ++ after)) := hpending ▸ List.perm_middle
  obtain ⟨tasks, hplan⟩ := h.planned r hr
  rcases plan?_cases hplan with ⟨halves, _, _, haction, -⟩ | ⟨how, effect, haction, heffect, -⟩
  · exact ⟨_, _, hperm, .split haction⟩
  · have hfinish : t.finish? transfer source r s.progress how s.dest =
        .ok (Task.log ⟨r, effect⟩ s.progress) (Task.apply ⟨r, effect⟩ s.dest) := by
      rw [finish?_eq hmachine, heffect]
    exact ⟨_, _, hperm, .finish haction hfinish⟩

theorem Stage.Ready.not_refused (hmachine : t.machine = .ideal) {s : Stage W m}
    (h : s.Ready t transfer source) {e : Fault} {dest : Grid W m} :
    ¬ Refused t transfer (fun _ => source) s e dest := by
  intro hrefused
  cases hrefused with
  | action hrefused =>
    obtain ⟨tasks, hplan⟩ := h.planned _ List.mem_cons_self
    rcases plan?_cases hplan with ⟨_, _, _, haction, -⟩ | ⟨_, _, haction, -⟩
    · cases hrefused.symm.trans haction
    · cases hrefused.symm.trans haction
  | finish haction hrefused =>
    obtain ⟨tasks, hplan⟩ := h.planned _ List.mem_cons_self
    rcases plan?_cases hplan with ⟨_, _, _, haction', -⟩ | ⟨_, _, haction', heffect, -⟩
    · cases haction.symm.trans haction'
    · cases haction.symm.trans haction'
      rw [finish?_eq hmachine, heffect] at hrefused
      cases hrefused

/-- If the pending regions have plans after a round, then they had plans before it. -/
theorem planned_of_step (hmachine : t.machine = .ideal) {s s' : Stage W m}
    (hstep : StepAny t transfer source s s')
    (h : ∀ r ∈ s'.pending, ∃ tasks, t.plan? transfer source s'.dest.background r = .ok tasks) :
    ∀ r ∈ s.pending, ∃ tasks, t.plan? transfer source s.dest.background r = .ok tasks := by
  obtain ⟨r, rest, hperm, hstep⟩ := hstep
  suffices hall : ∀ q ∈ r :: rest, ∃ tasks, t.plan? transfer source s.dest.background q = .ok tasks
    from fun q hq => hall q (hperm.mem_iff.mp hq)
  cases hstep with
  | @split _ _ _ _ halves haction =>
    obtain ⟨⟨upper, hupper⟩, h⟩ := List.forall_mem_cons.mp h
    obtain ⟨⟨lower, hlower⟩, h⟩ := List.forall_mem_cons.mp h
    refine List.forall_mem_cons.mpr ⟨⟨upper ++ lower, ?_⟩, h⟩
    rw [plan?_of_split haction, hupper, hlower]
    rfl
  | @finish _ _ _ p' _ dest' how haction hfinish =>
    rw [finish?_eq hmachine] at hfinish
    split at hfinish
    · cases hfinish
    · next effect heffect =>
      cases hfinish
      refine List.forall_mem_cons.mpr ⟨⟨[⟨r, effect⟩], ?_⟩, fun q hq => ?_⟩
      · rw [plan?_of_finish haction, heffect]
        rfl
      · obtain ⟨tasks, htasks⟩ := h q hq
        rw [Task.background_apply] at htasks
        exact ⟨tasks, htasks⟩

/-- A pass that comes to its end in some order is one whose regions all have plans. -/
theorem planned_of_reaches (hmachine : t.machine = .ideal) {s : Stage W m} {p : Progress}
    {dest : Grid W m} (h : ReachesAny t transfer source s ⟨[], p, dest⟩) :
    ∀ r ∈ s.pending, ∃ tasks, t.plan? transfer source s.dest.background r = .ok tasks := by
  induction h using Relation.ReflTransGen.head_induction_on with
  | refl => exact fun _ hr => absurd hr List.not_mem_nil
  | head hstep _ ih => exact planned_of_step hmachine hstep ih

theorem Stage.Ready.start (hmachine : t.machine = .ideal) {reach : Box} {dest : Grid W m}
    {p : Progress} {after : Grid W m}
    (h : ReachesAny t transfer source (.start reach dest) ⟨[], p, after⟩) :
    (Stage.start reach dest).Ready t transfer source where
  apart := by
    simp only [Stage.start]
    cases Region.ofBox? reach with
    | none => exact .nil
    | some r => exact List.pairwise_singleton _ _
  planned := planned_of_reaches hmachine h

end Writing

end Traversal

/-! ## Whole passes -/

namespace Resampler

variable {K V W : Type} {k m : Nat} [Scalar K] [BEq V] [VoxelValue K V] [Sized V] [BEq W] [Sized W]

/-- How the passes over a reach that take the pending regions in any order compare with one that
has this outcome. -/
def OrderFree (t : Traversal K k) (transfer : Transfer V W) (source : Grid V k) (dest : Grid W m)
    (reach : Box) : EStateM.Result Fault (Grid W m) Stats → Prop
  | .ok stats after =>
    -- No order comes to a round that is refused, and all end with the same counts and blocks.
    (∀ s, t.ReachesAny transfer source (.start reach dest) s → ∀ q ∈ s.pending,
      ∃ s', t.StepOn transfer source q s s') ∧
    ∀ p after', t.ReachesAny transfer source (.start reach dest) ⟨[], p, after'⟩ →
      p.stats reach = stats ∧ after'.background = after.background ∧
        ∀ key, after'.block? key = after.block? key
  | .error _ _ => ∀ p after', ¬ t.ReachesAny transfer source (.start reach dest) ⟨[], p, after'⟩

/-- **The order of the regions does not matter.** Whichever pending regions are taken next, a pass
ends after at most twice as many rounds as the reach has voxels, and unless it is refused it leaves
the same leaves and tiles, with the same contents, and the same counts as the pass that takes the
region added last. If that one is refused, no order comes to an end. -/
theorem transform_in_any_order {r : Resampler K} {inv : Matrix4 K} (hinverse : r.inverse = some inv)
    (sampler : Sampler) (transfer : Transfer V W) (source : Grid V k) (dest : Grid W m)
    {active reach : Box} (hactive : source.activeBox? = some active)
    (hreach : r.reach? active sampler.radius = .ok reach) :
    let t : Traversal K k := ⟨r, sampler, .ideal⟩
    (∀ (n : Nat) (f : Nat → Traversal.Stage W m), f 0 = .start reach dest →
      (∀ i < n, t.StepAny transfer source (f i) (f (i + 1))) → n ≤ 2 * reach.volume - 1) ∧
    OrderFree t transfer source dest reach
      (r.transform .ideal sampler transfer (fun _ => source) dest) := by
  intro t
  constructor
  · intro n f hstart hsteps
    have hle := Traversal.length_le_weight
      (fun s : Traversal.Stage W m => Region.weight s.pending) Traversal.StepAny.weight_lt hsteps
    simp only [hstart, Traversal.Stage.start] at hle
    by_cases hne : reach.Nonempty
    · rw [Region.ofBox?_eq_some hne] at hle
      exact hle
    · have hregion : Region.ofBox? reach = none := dif_neg hne
      rw [hregion] at hle
      exact Nat.le_trans hle (Nat.zero_le _)
  · have hrun : t.Ends transfer (fun _ => source) (.start reach dest) _ := Traversal.run_spec _
    rw [transform_eq_run hinverse sampler transfer (Grid.boundActive?_of_activeBox? hactive),
      hreach]
    simp only [Traversal.Stage.start] at hrun ⊢
    cases houtcome : Traversal.run (K := K) ⟨r, sampler, .ideal⟩ transfer (fun _ => source) .start
        (Region.ofBox? reach).toList dest with
    | ok p after =>
      rw [houtcome] at hrun
      have hend := Traversal.Reaches.any hrun
      have hready := Traversal.Stage.Ready.start rfl hend
      have hagrees := (hready.of_reaches rfl hend).2
      refine ⟨fun s hs q hq => (hready.of_reaches rfl hs).1.exists_step rfl hq, ?_⟩
      intro p' after' hend'
      have hagrees' := (hready.of_reaches rfl hend').2
      refine ⟨?_, hagrees'.background.trans hagrees.background.symm, fun key => ?_⟩
      · exact (hagrees'.tally reach).trans (hagrees.tally reach).symm
      · exact (hagrees'.outlook key).trans (hagrees.outlook key).symm
    | error e after =>
      rw [houtcome] at hrun
      obtain ⟨s, hreaches, hrefused⟩ := hrun
      intro p' after' hend'
      have hready := Traversal.Stage.Ready.start rfl hend'
      exact (hready.of_reaches rfl (Traversal.Reaches.any hreaches)).1.not_refused rfl hrefused

/-- A grid with one active voxel, mapped into a tile on a lattice twice as fine. -/
theorem transform_in_any_order_of_single :
    let source : Grid Int32 1 := (Grid.empty 0).write ⟨1, -2, 3⟩ ⟨7, true⟩
    let dest : Grid Int32 2 := (Grid.empty 5).fill (Box.ofBlock 2 ⟨0, -1, 1⟩) ⟨9, true⟩
    let inv : Matrix4 ℚ := .scaling ⟨1 / 2, 1 / 2, 1 / 2⟩
    let r : Resampler ℚ := ⟨.scaling ⟨2, 2, 2⟩, some inv, true, true, .ok (.int 1), none⟩
    let t : Traversal ℚ 1 := ⟨r, .quadratic, .ideal⟩
    let reach : Box := ⟨⟨0, -6, 4⟩, ⟨4, -2, 8⟩⟩
    source.activeBox? = some ⟨⟨1, -2, 3⟩, ⟨1, -2, 3⟩⟩ ∧
    r.reach? ⟨⟨1, -2, 3⟩, ⟨1, -2, 3⟩⟩ (Sampler.radius .quadratic) = .ok reach ∧
    (∀ (n : Nat) (f : Nat → Traversal.Stage Int32 2), f 0 = .start reach dest →
      (∀ i < n, t.StepAny (.same Int32) source (f i) (f (i + 1))) → n ≤ 2 * reach.volume - 1) ∧
    OrderFree t (.same Int32) source dest reach
      (r.transform .ideal .quadratic (.same Int32) (fun _ => source) dest) := by
  intro source dest inv r t reach
  have hactive : source.activeBox? = some ⟨⟨1, -2, 3⟩, ⟨1, -2, 3⟩⟩ := by decide +kernel
  have hreach : r.reach? ⟨⟨1, -2, 3⟩, ⟨1, -2, 3⟩⟩ (Sampler.radius .quadratic) = .ok reach := by
    rw [reach?_eq rfl]
    exact congrArg Except.ok (by decide +kernel)
  exact ⟨hactive, hreach,
    transform_in_any_order rfl .quadratic (.same Int32) source dest hactive hreach⟩

end Resampler

end SparseVoxel

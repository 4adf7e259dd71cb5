import SparseVoxel.Proofs.Grid.Blocks
import SparseVoxel.Proofs.Resampler.Coverage

/-!
# What working off a region comes to

How a region is finished depends on the source and on the background of the destination, and not on
what the destination holds. So what a pass does about a region can be told beforehand: `plan?` lists
the tasks that the region comes to, one for each part that is finished, and these parts share out
the region (`partitions_of_plan?`).

A task changes what is stored under a key by `Task.edit` (`Task.block?_apply`). Tasks of regions
without a common voxel may be exchanged (`Task.edit_comm`), although both may touch one block: where
the one makes a tile of a block, the other writes nothing to it.
-/

namespace SparseVoxel

/-- What finishing a region does to the destination. -/
inductive Effect (W : Type) where
  | skip
  | fill (state : Voxel W)
  | write (writes : List (Coord × Voxel W))

/-- A region together with what finishing it does. -/
structure Task (W : Type) where
  region : Region
  effect : Effect W

namespace Task

variable {W : Type} {m : Nat}

/-- Nothing is written outside the region. -/
def Inside (task : Task W) : Prop :=
  ∀ writes, task.effect = .write writes → ∀ w ∈ writes, w.1 ∈ task.region.box

/-- Two tasks whose regions have no voxel in common. -/
def Apart (a b : Task W) : Prop :=
  ∀ c, c ∈ a.region.box → c ∉ b.region.box

theorem Apart.symm {a b : Task W} (h : a.Apart b) : b.Apart a :=
  fun c hb ha => h c ha hb

instance : Std.Symm (Apart (W := W)) :=
  ⟨fun _ _ => Apart.symm⟩

/-- The counts after a task. -/
def record (task : Task W) (s : Stats) : Stats :=
  match task.effect with
  | .skip => { s with skipped := s.skipped + 1 }
  | .fill _ => { s with filled := s.filled + 1 }
  | .write writes =>
    { s with
      sampled := s.sampled + 1
      sampledVoxels := task.region.volume + s.sampledVoxels
      written := s.written + writes.length }

theorem record_comm (a b : Task W) (s : Stats) : b.record (a.record s) = a.record (b.record s) := by
  unfold record
  cases a.effect <;> cases b.effect <;>
    simp only [Nat.add_right_comm, Nat.add_left_comm]

/-- The progress after a task. -/
def log (task : Task W) (p : Progress) : Progress :=
  match task.effect with
  | .skip => { p with skipped := task.region :: p.skipped }
  | .fill _ => { p with filled := task.region :: p.filled }
  | .write writes =>
    { p with sampled := task.region :: p.sampled, written := p.written + writes.length }

theorem stats_log (task : Task W) (p : Progress) (reach : Box) :
    (task.log p).stats reach = task.record (p.stats reach) := by
  unfold log record
  cases task.effect <;> rfl

/-! ## What is left at a voxel -/

/-- What a task leaves at a voxel, given its old state. -/
def settle (task : Task W) (y : Coord) (old : Voxel W) : Voxel W :=
  match task.effect with
  | .skip => old
  | .fill state => if y ∈ task.region.box then state else old
  | .write writes => overwrite writes y old

theorem settle_of_not_mem {task : Task W} (hinside : task.Inside) {y : Coord}
    (hy : y ∉ task.region.box) (old : Voxel W) : task.settle y old = old := by
  unfold settle
  cases heffect : task.effect with
  | skip => rfl
  | fill state => exact if_neg hy
  | write writes =>
    refine overwrite_of_not_mem (fun w hw he => hy ?_) old
    rw [← he]
    exact hinside writes heffect w hw

theorem foldl_settle_of_not_mem {tasks : List (Task W)} (hinside : ∀ task ∈ tasks, task.Inside)
    {y : Coord} (hy : ∀ task ∈ tasks, y ∉ task.region.box) (old : Voxel W) :
    tasks.foldl (fun old task => task.settle y old) old = old := by
  induction tasks with
  | nil => rfl
  | cons task tasks ih =>
    rw [List.foldl_cons, settle_of_not_mem (hinside task List.mem_cons_self)
      (hy task List.mem_cons_self)]
    exact ih (fun a ha => hinside a (List.mem_cons_of_mem task ha))
      fun a ha => hy a (List.mem_cons_of_mem task ha)

/-- Of tasks without common voxels only the one whose region holds a voxel matters to it. -/
theorem foldl_settle_of_mem {tasks : List (Task W)} (hinside : ∀ task ∈ tasks, task.Inside)
    (hapart : tasks.Pairwise Apart) {task : Task W} (htask : task ∈ tasks) {y : Coord}
    (hy : y ∈ task.region.box) (old : Voxel W) :
    tasks.foldl (fun old task => task.settle y old) old = task.settle y old := by
  induction tasks generalizing old with
  | nil => cases htask
  | cons a tasks ih =>
    obtain ⟨hhead, hrest⟩ := List.pairwise_cons.mp hapart
    obtain ⟨ha, htasks⟩ := List.forall_mem_cons.mp hinside
    rw [List.foldl_cons]
    rcases List.mem_cons.mp htask with rfl | htask
    · exact foldl_settle_of_not_mem htasks (fun b hb => hhead b hb y hy) _
    · rw [settle_of_not_mem ha fun hya => hhead task htask y hya hy]
      exact ih htasks hrest htask old

/-! ## Carrying out tasks -/

variable [BEq W]

/-- Carries out a task on a destination. -/
def apply (task : Task W) (g : Grid W m) : Grid W m :=
  match task.effect with
  | .skip => g
  | .fill state => g.fill task.region.box state
  | .write writes => g.writeAll writes

theorem background_apply (task : Task W) (g : Grid W m) :
    (task.apply g).background = g.background := by
  unfold apply
  split
  · rfl
  · exact congrArg Voxel.value (Grid.unset_fill g _ _)
  · exact Grid.background_writeAll g _

theorem unset_apply (task : Task W) (g : Grid W m) : (task.apply g).unset = g.unset :=
  congrArg (fun background => Voxel.mk background false) (background_apply task g)

theorem read_apply [LawfulBEq W] (task : Task W) (g : Grid W m) (y : Coord) :
    (task.apply g).read y = task.settle y (g.read y) := by
  unfold apply settle
  cases task.effect with
  | skip => rfl
  | fill state => exact Grid.read_fill g task.region.box state y
  | write writes => exact Grid.read_writeAll g writes y

theorem read_foldl_apply [LawfulBEq W] (tasks : List (Task W)) (g : Grid W m) (y : Coord) :
    (tasks.foldl (fun g task => task.apply g) g).read y =
      tasks.foldl (fun old task => task.settle y old) (g.read y) := by
  induction tasks generalizing g with
  | nil => rfl
  | cons task tasks ih =>
    rw [List.foldl_cons, ih, read_apply]
    rfl

/-! ## What is stored under a key -/

/-- What a task makes of what is stored under a key. -/
def edit (task : Task W) (absent : Voxel W) (key : Coord) (stored : Option (Block W m)) :
    Option (Block W m) :=
  match task.effect with
  | .skip => stored
  | .fill state => Grid.storeFill absent task.region.box state key stored
  | .write writes => Grid.storeWrites absent (Grid.writesTo m key writes) stored

theorem block?_apply (task : Task W) (g : Grid W m) (key : Coord) :
    (task.apply g).block? key = task.edit g.unset key (g.block? key) := by
  unfold apply edit
  cases task.effect with
  | skip => rfl
  | fill state => exact Grid.block?_fill g _ state key
  | write writes => exact Grid.block?_writeAll g writes key

/-- A task stores the same under a key whatever was stored there, and then its region holds the
whole block, or else it writes to voxels that its region and the block have in common. -/
theorem edit_cases {task : Task W} (hinside : task.Inside) (absent : Voxel W) (key : Coord) :
    ((∀ c, Box.blockKey m c = key → c ∈ task.region.box) ∧
        ∃ final, ∀ stored : Option (Block W m), task.edit absent key stored = final) ∨
      ∃ writes : List (Coord × Voxel W),
        (∀ w ∈ writes, w.1 ∈ task.region.box ∧ Box.blockKey m w.1 = key) ∧
        ∀ stored : Option (Block W m),
          task.edit absent key stored = Grid.storeWrites absent writes stored := by
  unfold edit
  cases heffect : task.effect with
  | skip =>
    refine Or.inr ⟨[], nofun, fun stored => ?_⟩
    exact (Grid.storeWrites_nil absent stored).symm
  | fill state =>
    by_cases hblock : task.region.box.containsBox (Box.ofBlock m key) = true
    · refine Or.inl ⟨Box.containsBox_ofBlock_iff.mp hblock, ?_⟩
      exact ⟨if (state == absent) = true then none else some (.tile state),
        fun stored => if_pos hblock⟩
    · refine Or.inr ⟨(task.region.box.inBlock m key).coords.map (·, state), fun w hw => ?_,
        fun stored => if_neg hblock⟩
      obtain ⟨c, hc, rfl⟩ := List.mem_map.mp hw
      exact Box.mem_coords_inBlock.mp hc
  | write writes =>
    refine Or.inr ⟨Grid.writesTo m key writes, fun w hw => ?_, fun stored => rfl⟩
    obtain ⟨hw, hkey⟩ := Grid.mem_writesTo.mp hw
    exact ⟨hinside writes heffect w hw, hkey⟩

theorem edit_of_not_meets {task : Task W} (hinside : task.Inside) {key : Coord}
    (h : ∀ c, Box.blockKey m c = key → c ∉ task.region.box) (absent : Voxel W)
    (stored : Option (Block W m)) : task.edit absent key stored = stored := by
  rcases edit_cases (m := m) hinside absent key with ⟨hholds, -⟩ | ⟨writes, hwrites, hstore⟩
  · have hlo := Box.blockKey_lo m key
    exact absurd (hholds _ hlo) (h _ hlo)
  · have hnil : writes = [] := List.eq_nil_iff_forall_not_mem.mpr fun w hw =>
      h w.1 (hwrites w hw).2 (hwrites w hw).1
    rw [hstore, hnil, Grid.storeWrites_nil]

/-- Tasks of regions without a common voxel may be exchanged. -/
theorem edit_comm {a b : Task W} (ha : a.Inside) (hb : b.Inside) (h : a.Apart b) (absent : Voxel W)
    (key : Coord) (stored : Option (Block W m)) :
    b.edit absent key (a.edit absent key stored) =
      a.edit absent key (b.edit absent key stored) := by
  rcases edit_cases (m := m) ha absent key with ⟨hholds, -⟩ | ⟨ws, hws, hstore⟩
  · have hfree := edit_of_not_meets (m := m) hb fun c hc => h c (hholds c hc)
    rw [hfree, hfree]
  · rcases edit_cases (m := m) hb absent key with ⟨hholds, -⟩ | ⟨ws', hws', hstore'⟩
    · have hfree := edit_of_not_meets (m := m) ha fun c hc => h.symm c (hholds c hc)
      rw [hfree, hfree]
    · rw [hstore, hstore', hstore, hstore']
      refine Grid.storeWrites_comm (fun w hw => (hws w hw).2) (fun w hw => (hws' w hw).2) ?_ stored
      intro w hw w' hw' he
      exact h w.1 (hws w hw).1 (he ▸ (hws' w' hw').1)

end Task

namespace Traversal

variable {K V W : Type} {k m : Nat} [Scalar K] [VoxelValue K V] [Sized V]
variable (t : Traversal K k) (transfer : Transfer V W) (source : Grid V k) (background : W)

/-- What finishing a region does over the background of a destination. -/
def effect? (r : Region) : Treatment V → Except Fault (Effect W)
  | .skip => return .skip
  | .fill state => return .fill ⟨← transfer.fill state.value, state.active⟩
  | .sample => return .write (← writes? transfer background (← t.samples? source r.box))

/-- The tasks that a region comes to, those of the upper half first. -/
def plan? [BEq V] (r : Region) : Except Fault (List (Task W)) := do
  match ← t.action? source r with
  | .split halves => return (← plan? halves.upper) ++ (← plan? halves.lower)
  | .finish how => return [⟨r, ← t.effect? transfer source background r how⟩]
termination_by r.volume
decreasing_by
  · have := halves.lower.volume_pos
    have := halves.volume_eq
    omega
  · have := halves.upper.volume_pos
    have := halves.volume_eq
    omega

variable {t transfer source background}

/-! ## Finishing a region -/

/-- On the ideal machine a region is finished by its task. -/
theorem finish?_eq [BEq W] [Sized W] (hmachine : t.machine = .ideal) (r : Region) (p : Progress)
    (how : Treatment V) (dest : Grid W m) :
    t.finish? transfer source r p how dest =
      match t.effect? transfer source dest.background r how with
      | .error e => .error e dest
      | .ok effect => .ok (Task.log ⟨r, effect⟩ p) (Task.apply ⟨r, effect⟩ dest) := by
  cases how with
  | skip => rfl
  | fill state =>
    rw [finish?_fill (.of_ideal hmachine W m), effect?]
    cases transfer.fill state.value with
    | error e => rfl
    | ok v => rfl
  | sample =>
    rw [finish?_sample (.of_ideal hmachine W m), effect?]
    cases t.samples? source r.box with
    | error e => rfl
    | ok samples =>
      simp only [bind, Except.bind]
      cases writes? transfer dest.background samples with
      | error e => rfl
      | ok writes => rfl

theorem inside_of_effect? (hmachine : t.machine = .ideal) {r : Region} {how : Treatment V}
    {effect : Effect W} (h : t.effect? transfer source background r how = .ok effect) :
    Task.Inside ⟨r, effect⟩ := by
  rintro writes heffect w hw
  cases heffect
  cases how with
  | skip => cases h
  | fill state =>
    obtain ⟨v, -, h⟩ := bind_eq_ok.mp h
    cases h
  | sample =>
    obtain ⟨samples, hsamples, h⟩ := bind_eq_ok.mp h
    obtain ⟨writes, hwrites, h⟩ := bind_eq_ok.mp h
    cases h
    have hmem := (of_writes? hwrites).2 w hw
    rw [coords_of_samples? (.of_ideal hmachine r.box) hsamples] at hmem
    exact Box.mem_coords.mp hmem

/-! ## Plans -/

variable [BEq V]

theorem plan?_of_split {r : Region} {halves : r.Halves}
    (haction : t.action? source r = .ok (.split halves)) :
    t.plan? transfer source background r = do
      return (← t.plan? transfer source background halves.upper) ++
        (← t.plan? transfer source background halves.lower) := by
  rw [plan?, haction]
  rfl

theorem plan?_of_finish {r : Region} {how : Treatment V}
    (haction : t.action? source r = .ok (.finish how)) :
    t.plan? transfer source background r = do
      return [⟨r, ← t.effect? transfer source background r how⟩] := by
  rw [plan?, haction]
  rfl

/-- A region that has a plan is halved, or it is finished without being refused. -/
theorem plan?_cases {r : Region} {tasks : List (Task W)}
    (h : t.plan? transfer source background r = .ok tasks) :
    (∃ halves upper lower, t.action? source r = .ok (.split halves) ∧
      t.plan? transfer source background halves.upper = .ok upper ∧
      t.plan? transfer source background halves.lower = .ok lower ∧ tasks = upper ++ lower) ∨
    ∃ how effect, t.action? source r = .ok (.finish how) ∧
      t.effect? transfer source background r how = .ok effect ∧ tasks = [⟨r, effect⟩] := by
  cases haction : t.action? source r with
  | error e =>
    rw [plan?, haction] at h
    cases h
  | ok action =>
    cases action with
    | split halves =>
      rw [plan?_of_split haction] at h
      obtain ⟨upper, hupper, h⟩ := bind_eq_ok.mp h
      obtain ⟨lower, hlower, h⟩ := bind_eq_ok.mp h
      cases h
      exact Or.inl ⟨halves, upper, lower, rfl, hupper, hlower, rfl⟩
    | finish how =>
      rw [plan?_of_finish haction] at h
      obtain ⟨effect, heffect, h⟩ := bind_eq_ok.mp h
      cases h
      exact Or.inr ⟨how, effect, rfl, heffect, rfl⟩

/-- What holds of every finished region with its task, and is passed on from halves, holds of
every plan. -/
theorem plan?_induction {motive : Region → List (Task W) → Prop}
    (finish : ∀ {r how effect}, t.action? source r = .ok (.finish how) →
      t.effect? transfer source background r how = .ok effect → motive r [⟨r, effect⟩])
    (split : ∀ {r} {halves : r.Halves} {upper lower},
      t.action? source r = .ok (.split halves) → motive halves.upper upper →
      motive halves.lower lower → motive r (upper ++ lower))
    {r : Region} {tasks : List (Task W)}
    (h : t.plan? transfer source background r = .ok tasks) : motive r tasks := by
  induction hvolume : r.volume using Nat.strongRecOn generalizing r tasks with
  | ind n ih =>
    subst hvolume
    rcases plan?_cases h with ⟨halves, upper, lower, haction, hupper, hlower, rfl⟩ |
      ⟨how, effect, haction, heffect, rfl⟩
    · have hl := halves.lower.volume_pos
      have hu := halves.upper.volume_pos
      have he := halves.volume_eq
      exact split haction (ih _ (by omega) hupper rfl) (ih _ (by omega) hlower rfl)
    · exact finish haction heffect

theorem inside_of_plan? (hmachine : t.machine = .ideal) {r : Region} {tasks : List (Task W)}
    (h : t.plan? transfer source background r = .ok tasks) : ∀ task ∈ tasks, task.Inside := by
  refine plan?_induction (motive := fun _ tasks => ∀ task ∈ tasks, task.Inside) ?_ ?_ h
  · intro r how effect _ heffect task htask
    cases List.mem_singleton.mp htask
    exact inside_of_effect? hmachine heffect
  · intro r halves upper lower _ hupper hlower task htask
    exact (List.mem_append.mp htask).elim (hupper task) (hlower task)

/-- The regions of a plan share out the region that is planned. -/
theorem partitions_of_plan? {r : Region} {tasks : List (Task W)}
    (h : t.plan? transfer source background r = .ok tasks) :
    Partitions (tasks.map Task.region) r.box := by
  refine plan?_induction (motive := fun r tasks => Partitions (tasks.map Task.region) r.box) ?_ ?_ h
  · intro r how effect _ _
    exact .single r.nonempty
  · intro r halves upper lower haction hupper hlower
    rw [List.map_append]
    exact .join (action?_shares haction) hupper hlower

/-- What the tasks of a plan leave at a voxel: outside of the region nothing changes, and inside
only one of the tasks matters. -/
theorem read_of_plan? [BEq W] [LawfulBEq W] (hmachine : t.machine = .ideal) {r : Region}
    {tasks : List (Task W)} (h : t.plan? transfer source background r = .ok tasks)
    (dest : Grid W m) (y : Coord) :
    (y ∉ r.box → (tasks.foldl (fun g task => task.apply g) dest).read y = dest.read y) ∧
      (y ∈ r.box → ∃ task ∈ tasks, y ∈ task.region.box ∧
        (tasks.foldl (fun g task => task.apply g) dest).read y =
          task.settle y (dest.read y)) := by
  have hinside := inside_of_plan? hmachine h
  obtain ⟨hdisjoint, hcover⟩ := partitions_of_plan? h
  rw [List.pairwise_map] at hdisjoint
  rw [Task.read_foldl_apply]
  constructor
  · refine fun hy => Task.foldl_settle_of_not_mem hinside (fun task htask hmem => hy ?_) _
    exact (hcover y).mpr ⟨task.region, List.mem_map_of_mem htask, hmem⟩
  · intro hy
    obtain ⟨part, hpart, hmem⟩ := (hcover y).mp hy
    obtain ⟨task, htask, rfl⟩ := List.mem_map.mp hpart
    exact ⟨task, htask, hmem, Task.foldl_settle_of_mem hinside hdisjoint htask hmem _⟩

/-- A region that has a plan is worked off by its tasks, one after the other. -/
theorem run_of_plan? [BEq W] [Sized W] (hmachine : t.machine = .ideal) {r : Region}
    {tasks : List (Task W)} (h : t.plan? transfer source background r = .ok tasks)
    (rest : List Region) (p : Progress) {dest : Grid W m} (hdest : dest.background = background) :
    t.run transfer (fun _ => source) p (r :: rest) dest =
      t.run transfer (fun _ => source) (tasks.foldl (fun p task => task.log p) p) rest
        (tasks.foldl (fun g task => task.apply g) dest) := by
  have hbackground : ∀ (tasks : List (Task W)) (g : Grid W m),
      (tasks.foldl (fun g task => task.apply g) g).background = g.background := by
    intro tasks
    induction tasks with
    | nil => exact fun _ => rfl
    | cons task tasks ih => exact fun g => (ih _).trans (task.background_apply g)
  refine plan?_induction (motive := fun r tasks => ∀ (rest : List Region) (p : Progress)
    (dest : Grid W m), dest.background = background →
      t.run transfer (fun _ => source) p (r :: rest) dest =
        t.run transfer (fun _ => source) (tasks.foldl (fun p task => task.log p) p) rest
          (tasks.foldl (fun g task => task.apply g) dest)) ?_ ?_ h rest p dest hdest
  · intro r how effect haction heffect rest p dest hdest
    rw [run_cons, haction]
    simp only [finish?_eq hmachine, hdest, heffect]
    rfl
  · intro r halves upper lower haction hupper hlower rest p dest hdest
    rw [run_cons, haction, List.foldl_append, List.foldl_append]
    exact (hupper _ p dest hdest).trans (hlower rest _ _ ((hbackground upper dest).trans hdest))

end Traversal

/-- A pass over a reach that has a plan carries out the tasks of the plan. -/
theorem Resampler.transform_of_plan? {K V W : Type} {k m : Nat} [Scalar K] [BEq V] [VoxelValue K V]
    [Sized V] [BEq W] [Sized W] {r : Resampler K} {inv : Matrix4 K}
    (hinverse : r.inverse = some inv) (sampler : Sampler) {transfer : Transfer V W}
    {source : Grid V k} (dest : Grid W m)
    {active reach : Box} (hactive : source.activeBox? = some active)
    (hreach : r.reach? active sampler.radius = .ok reach) (hne : reach.Nonempty)
    {tasks : List (Task W)} (hplan : Traversal.plan? (K := K) ⟨r, sampler, .ideal⟩ transfer source
      dest.background ⟨reach, hne⟩ = .ok tasks) :
    r.transform .ideal sampler transfer (fun _ => source) dest =
      .ok ((tasks.foldl (fun p task => task.log p) Progress.start).stats reach)
        (tasks.foldl (fun g task => task.apply g) dest) := by
  have hdest : dest.background = dest.background := rfl
  have hrun := Traversal.run_of_plan? rfl hplan [] .start hdest
  rw [Traversal.run_nil] at hrun
  rw [transform_eq_run hinverse sampler transfer (Grid.boundActive?_of_activeBox? hactive), hreach]
  simp only [Region.ofBox?_eq_some hne, Option.toList, hrun]

end SparseVoxel

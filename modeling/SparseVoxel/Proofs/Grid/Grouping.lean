import SparseVoxel.Proofs.Grid.Blocks
import SparseVoxel.Proofs.Lists

/-!
# The groups of a batch

Grouping a batch of writes by the places of its blocks gives each block that is written to the
writes to it, in the order of the batch (`groupByBlock_eq`). The sort by places is stable
(`filter_sortWithIndices`), and the cuts, which are the running sums of the numbers of writes, fall
between the places (`cutAt_runningSums`).

So, where there is room, a batch is written block by block (`writeAll?_eq_ok`).
-/

namespace SparseVoxel.Grid

variable {V : Type} {k : Nat}

/-! ## Keys and their places -/

theorem mem_distinctKeys {keys : List Coord} {key : Coord} :
    key ∈ distinctKeys keys ↔ key ∈ keys := by
  rw [distinctKeys, Std.TreeSet.mem_toList, Std.TreeSet.mem_ofList, List.contains_iff_mem]

theorem distinctKeys_ordered (keys : List Coord) :
    (distinctKeys keys).Pairwise fun a b => compare a b = .lt :=
  Std.TreeSet.ordered_toList

theorem nodup_distinctKeys (keys : List Coord) : (distinctKeys keys).Nodup :=
  (distinctKeys_ordered keys).imp ne_of_ordered

theorem places_eq (keys : List Coord) :
    places keys = keys.map fun key => (distinctKeys keys).idxOf key := by
  refine List.map_congr_left fun key hkey => ?_
  refine Std.TreeMap.getD_ofList_of_mem Std.ReflOrd.compare_self ?_ ?_
  · have hfst : ((distinctKeys keys).zipIdx.map Prod.fst).Nodup := by
      rw [List.zipIdx_map_fst]
      exact nodup_distinctKeys keys
    exact (List.pairwise_map.mp hfst).imp fun hne he => hne (Std.LawfulEqOrd.eq_of_compare he)
  · exact List.mem_zipIdx_iff_getElem?.mpr
      (List.getElem?_idxOf (mem_distinctKeys.mpr hkey))

/-! ## Sorting by places -/

theorem compareNumbers_eq_lt {a b : Nat × Nat} :
    compareNumbers a b = .lt ↔ a.1 < b.1 ∨ a.1 = b.1 ∧ a.2 < b.2 := by
  simp only [compareNumbers, compareLex, compareOn, Ordering.then_eq_lt, Nat.compare_eq_lt,
    Nat.compare_eq_eq]

instance : Std.LawfulEqCmp compareNumbers where
  eq_of_compare h := by
    obtain ⟨hfst, hsnd⟩ := compareLex_eq_eq.mp h
    exact Prod.ext (Nat.compare_eq_eq.mp hfst) (Nat.compare_eq_eq.mp hsnd)

theorem mem_sortWithIndices {numbers : List Nat} {a : Nat × Nat} :
    a ∈ sortWithIndices numbers ↔ a ∈ numbers.zipIdx := by
  rw [sortWithIndices, Std.TreeSet.mem_toList, Std.TreeSet.mem_ofList, List.contains_iff_mem]

theorem sortWithIndices_ordered (numbers : List Nat) :
    (sortWithIndices numbers).Pairwise fun a b => compareNumbers a b = .lt :=
  Std.TreeSet.ordered_toList

theorem pairwise_sortWithIndices (numbers : List Nat) :
    (sortWithIndices numbers).Pairwise fun a b => a.1 ≤ b.1 :=
  (sortWithIndices_ordered numbers).imp fun h => by
    have := compareNumbers_eq_lt.mp h
    omega

/-- Entries with equal numbers stay in their order. -/
theorem filter_sortWithIndices (numbers : List Nat) (n : Nat) :
    (sortWithIndices numbers).filter (·.1 == n) = numbers.zipIdx.filter (·.1 == n) := by
  refine eq_of_ordered ((sortWithIndices_ordered numbers).filter _) ?_ fun a => ?_
  · have hsnd := (pairwise_zipIdx_snd numbers).filter (·.1 == n)
    refine hsnd.imp_of_mem fun ha hb hab => compareNumbers_eq_lt.mpr (Or.inr ⟨?_, hab⟩)
    rw [beq_iff_eq.mp (List.mem_filter.mp ha).2, beq_iff_eq.mp (List.mem_filter.mp hb).2]
  · rw [List.mem_filter, List.mem_filter, mem_sortWithIndices]

/-! ## Cutting between the places -/

theorem tally_eq (bound : Nat) (numbers : List Nat) :
    tally bound numbers = (List.range bound).map numbers.count := by
  have hfold : ∀ counts : Array Nat,
      (numbers.foldl (fun counts n => counts.modify n (· + 1)) counts).toList =
        counts.toList.mapIdx fun i count => count + numbers.count i := by
    induction numbers with
    | nil => exact fun counts => (List.ext_getElem (by simp) (by simp))
    | cons n numbers ih =>
      intro counts
      rw [List.foldl_cons, ih]
      refine List.ext_getElem (by simp) fun i hi hi' => ?_
      simp only [List.getElem_mapIdx, Array.getElem_toList, Array.getElem_modify, List.count_cons,
        beq_iff_eq]
      split
      · omega
      · omega
  rw [tally, hfold]
  refine List.ext_getElem (by simp) fun i hi hi' => ?_
  simp

/-- A list that is sorted by numbers is cut into the entries of each number. -/
theorem cutAt_runningSums {β : Type} {l : List (Nat × β)}
    (hsorted : l.Pairwise fun a b => a.1 ≤ b.1) {n m : Nat}
    (hbound : ∀ a ∈ l, n ≤ a.1 ∧ a.1 < n + m + 1) (start : Nat) :
    cutAt start (runningSums start
        ((List.range' n (m + 1)).map fun d => l.countP (·.1 == d))).dropLast l =
      (List.range' n (m + 1)).map fun d => l.filter (·.1 == d) := by
  induction m generalizing n l start with
  | zero =>
    have hall : l.filter (·.1 == n) = l :=
      List.filter_eq_self.mpr fun a ha => beq_iff_eq.mpr (by have := hbound a ha; omega)
    show [l] = [l.filter (·.1 == n)]
    rw [hall]
  | succ m ih =>
    -- the entries with the least number are cut off, and the others are cut as a shorter list
    let rest := l.filter (fun a => n < a.1)
    have hsplit : l = l.filter (·.1 == n) ++ rest :=
      eq_filter_append hsorted fun a ha => (hbound a ha).1
    have hlength : (l.filter (·.1 == n)).length = l.countP (·.1 == n) :=
      List.countP_eq_length_filter.symm
    have hrest : ∀ d ∈ List.range' (n + 1) (m + 1),
        rest.filter (·.1 == d) = l.filter (·.1 == d) := fun d hd =>
      filter_filter_above (List.mem_range'_1.mp hd).1 l
    have hcounts : (List.range' (n + 1) (m + 1)).map (fun d => l.countP (·.1 == d)) =
        (List.range' (n + 1) (m + 1)).map fun d => rest.countP (·.1 == d) :=
      List.map_congr_left fun d hd => by
        rw [List.countP_eq_length_filter, List.countP_eq_length_filter, hrest d hd]
    have hih := ih (l := rest) (n := n + 1) (hsorted.filter _) (fun a ha => by
      have hlt := of_decide_eq_true (List.mem_filter.mp ha).2
      have := hbound a (List.mem_filter.mp ha).1
      omega) (start + l.countP (·.1 == n))
    rw [← hcounts, List.map_congr_left hrest] at hih
    have htake : l.take (l.countP (·.1 == n)) = l.filter (·.1 == n) := by
      rw [← hlength]
      exact (congrArg _ hsplit).trans List.take_left
    have hdrop : l.drop (l.countP (·.1 == n)) = rest := by
      rw [← hlength]
      exact (congrArg _ hsplit).trans List.drop_left
    rw [List.range'_succ, List.map_cons, runningSums,
      List.dropLast_cons_of_ne_nil (by simp [runningSums, List.range'_succ]), cutAt,
      Nat.add_sub_cancel_left, htake, hdrop, hih, List.map_cons]

/-! ## Groups -/

theorem map_cutAt {α β : Type} (f : α → β) (start : Nat) (stops : List Nat) (as : List α) :
    cutAt start stops (as.map f) = (cutAt start stops as).map (·.map f) := by
  induction stops generalizing start as with
  | nil => rfl
  | cons stop stops ih => rw [cutAt, cutAt, ← List.map_take, ← List.map_drop, ih, List.map_cons]

theorem count_eq_countP_sortWithIndices (numbers : List Nat) (n : Nat) :
    numbers.count n = (sortWithIndices numbers).countP (·.1 == n) := by
  rw [List.countP_eq_length_filter, filter_sortWithIndices, ← List.countP_eq_length_filter]
  conv_lhs => rw [← List.zipIdx_map_fst 0 numbers]
  rw [List.count, List.countP_map]
  rfl

/-- Numbers that have been sorted are cut into the indices of each number, in their order. -/
theorem cutAt_tally {bound : Nat} (hbound : 0 < bound) {numbers : List Nat}
    (h : ∀ n ∈ numbers, n < bound) :
    cutAt 0 (runningSums 0 (tally bound numbers)).dropLast
        ((sortWithIndices numbers).map Prod.snd) =
      (List.range bound).map fun n => (numbers.zipIdx.filter (·.1 == n)).map Prod.snd := by
  obtain ⟨m, rfl⟩ := Nat.exists_eq_add_of_lt hbound
  rw [Nat.zero_add] at h ⊢
  have hnumbers : ∀ a ∈ sortWithIndices numbers, 0 ≤ a.1 ∧ a.1 < 0 + m + 1 := by
    intro a ha
    have hmem : a.1 ∈ numbers := by
      have := List.mem_map_of_mem (f := Prod.fst) (mem_sortWithIndices.mp ha)
      rwa [List.zipIdx_map_fst] at this
    exact ⟨Nat.zero_le _, (Nat.zero_add m).symm ▸ h a.1 hmem⟩
  have hcount : numbers.count = fun n => (sortWithIndices numbers).countP (·.1 == n) :=
    funext (count_eq_countP_sortWithIndices numbers)
  rw [tally_eq, hcount, map_cutAt, List.range_eq_range',
    cutAt_runningSums (pairwise_sortWithIndices numbers) hnumbers, List.map_map]
  refine List.map_congr_left fun n _ => ?_
  rw [Function.comp_apply, filter_sortWithIndices]

/-- The blocks that are written to are those that have a group. -/
theorem keys_groupWrites (k : Nat) (writes : List (Coord × Voxel V)) :
    (groupWrites k writes).keys = distinctKeys (writes.map fun w => Box.blockKey k w.1) := by
  refine eq_of_ordered Std.TreeMap.ordered_keys (distinctKeys_ordered _) fun key => ?_
  rw [Std.TreeMap.mem_keys, Std.TreeMap.mem_iff_isSome_getElem?, getElem?_groupWrites_eq,
    mem_distinctKeys, List.mem_map]
  split
  · next hnil =>
    refine ⟨nofun, fun ⟨w, hw, hkey⟩ => ?_⟩
    exact absurd (mem_writesTo.mpr ⟨hw, hkey⟩) (hnil ▸ List.not_mem_nil)
  · next hne =>
    obtain ⟨w, hw⟩ := List.exists_mem_of_ne_nil _ hne
    exact iff_of_true rfl ⟨w, mem_writesTo.mp hw⟩

theorem toList_groupWrites (k : Nat) (writes : List (Coord × Voxel V)) :
    (groupWrites k writes).toList =
      (distinctKeys (writes.map fun w => Box.blockKey k w.1)).map fun key =>
        (key, writesTo k key writes) := by
  rw [← keys_groupWrites, ← Std.TreeMap.map_fst_toList_eq_keys, List.map_map]
  conv_lhs => rw [← List.map_id (groupWrites k writes).toList]
  refine List.map_congr_left fun group hgroup => ?_
  have hsome := Std.TreeMap.mem_toList_iff_getElem?_eq_some.mp hgroup
  rw [getElem?_groupWrites_eq] at hsome
  split at hsome
  · cases hsome
  · exact Prod.ext rfl (Option.some.inj hsome).symm

/-- A batch is taken apart into the writes to each block, in their order. -/
theorem groupByBlock_eq (k : Nat) (writes : List (Coord × Voxel V)) :
    groupByBlock k writes = (groupWrites k writes).toList := by
  rw [toList_groupWrites, groupByBlock]
  set keys := writes.map fun w => Box.blockKey k w.1 with hkeys
  have hplaces : places keys =
      writes.map fun w => (distinctKeys keys).idxOf (Box.blockKey k w.1) := by
    rw [places_eq, hkeys, List.map_map]
    rfl
  have hplace : ∀ n ∈ places keys, n < (distinctKeys keys).length := by
    intro n hn
    rw [places_eq] at hn
    obtain ⟨key, hkey, rfl⟩ := List.mem_map.mp hn
    exact List.idxOf_lt_length_of_mem (mem_distinctKeys.mpr hkey)
  rcases Nat.eq_zero_or_pos (distinctKeys keys).length with hzero | hpos
  · rw [List.length_eq_zero_iff.mp hzero]
    rfl
  rw [cutAt_tally hpos hplace, hplaces]
  refine List.ext_getElem (by simp) fun i hi hi' => ?_
  have hi : i < (distinctKeys keys).length := by simpa using hi'
  simp only [List.getElem_zipWith, List.getElem_map, List.getElem_range, filterMap_indices]
  refine congrArg (Prod.mk _) (List.filter_congr fun w hw => ?_)
  have hmem : Box.blockKey k w.1 ∈ distinctKeys keys :=
    mem_distinctKeys.mpr (List.mem_map_of_mem hw)
  have hindex := (nodup_distinctKeys keys).idxOf_getElem i hi
  rw [Bool.eq_iff_iff, beq_iff_eq, beq_iff_eq, ← List.idxOf_inj hmem, hindex]

/-! ## Writing the groups -/

theorem writeAll_eq_foldl (g : Grid V k) (writes : List (Coord × Voxel V)) : g.writeAll writes =
    (groupByBlock k writes).foldl (fun g group => g.alterBlock group.1 (·.writeAll group.2)) g := by
  rw [writeAll, Std.TreeMap.foldl_eq_foldl_toList, groupByBlock_eq]

section Writing

variable [Sized V] {machine : Machine} {writes : List (Coord × Voxel V)}

/-- Where there is room, all voxels are written. -/
theorem writeAll?_eq_ok (hroom : machine.HasRoom V k) (writes : List (Coord × Voxel V))
    (g : Grid V k) : writeAll? machine writes g = .ok () (g.writeAll writes) := by
  unfold writeAll?
  rw [hroom.offsets]
  split
  · next h =>
    rw [List.isEmpty_iff.1 h]
    rfl
  · show Attempt.each (writeBlock? machine) (groupByBlock k writes) g = _
    rw [Attempt.each_eq_ok (writeBlock?_eq_ok hroom), writeAll_eq_foldl]

theorem eq_of_writeBlock? {group : Coord × List (Coord × Voxel V)} {g g' : Grid V k}
    (h : writeBlock? machine group g = .ok () g') :
    g' = g.alterBlock group.1 (·.writeAll group.2) := by
  obtain ⟨_, g₁, hroom, hafter⟩ := Attempt.bind_eq_ok.mp h
  obtain ⟨rfl, -⟩ := makeRoom?_eq_ok_iff.mp hroom
  cases hafter
  rfl

/-- Whatever the machine, all voxels are written unless one is refused. -/
theorem eq_of_writeAll? {g g' : Grid V k} (h : writeAll? machine writes g = .ok () g') :
    g' = g.writeAll writes := by
  unfold writeAll? at h
  split at h
  · next hempty =>
    cases h
    rw [List.isEmpty_iff.1 hempty]
    rfl
  · obtain ⟨-, -, heach⟩ := Attempt.check_bind_eq_ok.mp h
    rw [writeAll_eq_foldl]
    exact Attempt.eq_foldl_of_each eq_of_writeBlock? heach

end Writing

end SparseVoxel.Grid

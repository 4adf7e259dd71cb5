import Mathlib.Data.List.Forall2
import Mathlib.Data.List.Nodup

/-!
# Lists

Facts about lists of anything: what a fold of an operation on values comes to, when two sorted lists
are the same one, where the results of a function that may give none come from, and how entries are
kept, paired and counted.
-/

namespace SparseVoxel

variable {α β γ : Type}

/-! ## Folds -/

/-- A fold of an operation that stays on one side of its arguments stays on that side of every
value. -/
theorem foldl_of_mem {R : α → α → Prop} (hrefl : ∀ a, R a a)
    (htrans : ∀ {a b c}, R a b → R b c → R a c) {f : α → α → α} (hleft : ∀ a b, R (f a b) a)
    (hright : ∀ a b, R (f a b) b) {a b : α} {as : List α} (h : b ∈ a :: as) :
    R (as.foldl f a) b := by
  induction as generalizing a b with
  | nil =>
    rw [List.mem_singleton.mp h]
    exact hrefl a
  | cons c as ih =>
    have hfirst : R ((c :: as).foldl f a) (f a c) := ih List.mem_cons_self
    rcases List.mem_cons.mp h with rfl | h
    · exact htrans hfirst (hleft _ _)
    · rcases List.mem_cons.mp h with rfl | h
      · exact htrans hfirst (hright _ _)
      · exact ih (List.mem_cons_of_mem _ h)

/-- A fold of an operation that selects one of its arguments ends with one of the values. -/
theorem foldl_mem_of_select {f : α → α → α} (hf : ∀ a b, f a b = a ∨ f a b = b)
    (a : α) (as : List α) : as.foldl f a ∈ a :: as := by
  induction as generalizing a with
  | nil => exact List.mem_cons_self
  | cons b as ih =>
    rw [List.foldl_cons]
    rcases List.mem_cons.mp (ih (f a b)) with h | h
    · rw [h]
      rcases hf a b with h | h
      · rw [h]
        exact List.mem_cons_self
      · rw [h]
        exact List.mem_cons_of_mem _ List.mem_cons_self
    · exact List.mem_cons_of_mem _ (List.mem_cons_of_mem _ h)

theorem foldl_of_forall_eq {f : α → α → α} {a : α} (hf : f a a = a) {as : List α}
    (h : ∀ b ∈ as, b = a) : as.foldl f a = a := by
  induction as with
  | nil => rfl
  | cons b as ih =>
    obtain ⟨rfl, has⟩ := List.forall_mem_cons.mp h
    rw [List.foldl_cons, hf, ih has]

/-! ## Sorted lists -/

section Ordered

variable {cmp : α → α → Ordering} [Std.OrientedCmp cmp]

theorem ne_of_ordered {a b : α} (h : cmp a b = .lt) : a ≠ b := by
  rintro rfl
  have hself : cmp a a = .eq := Std.ReflCmp.compare_self
  rw [hself] at h
  cases h

/-- Two sorted lists are equal if they have the same entries. -/
theorem eq_of_ordered {l l' : List α} (h : l.Pairwise fun a b => cmp a b = .lt)
    (h' : l'.Pairwise fun a b => cmp a b = .lt) (hmem : ∀ a, a ∈ l ↔ a ∈ l') : l = l' := by
  have hperm := (List.perm_ext_iff_of_nodup (h.imp ne_of_ordered) (h'.imp ne_of_ordered)).mpr hmem
  refine hperm.eq_of_pairwise (fun a b _ _ hab hba => ?_) h h'
  have hswap : cmp a b = (cmp b a).swap := Std.OrientedCmp.eq_swap
  rw [hswap, hba] at hab
  cases hab

end Ordered

theorem pairwise_zipIdx_snd (as : List α) : as.zipIdx.Pairwise fun a b => a.2 < b.2 := by
  refine List.pairwise_map.mp ?_
  rw [List.zipIdx_map_snd]
  exact List.pairwise_lt_range'

/-- In a list that is sorted by numbers the entries with the least number come first. -/
theorem eq_filter_append {l : List (Nat × β)}
    (hsorted : l.Pairwise fun a b => a.1 ≤ b.1) {n : Nat} (hn : ∀ a ∈ l, n ≤ a.1) :
    l = l.filter (·.1 == n) ++ l.filter (fun a => n < a.1) := by
  induction l with
  | nil => rfl
  | cons a l ih =>
    obtain ⟨ha, hl⟩ := List.pairwise_cons.mp hsorted
    by_cases han : a.1 = n
    · rw [List.filter_cons_of_pos (by simp [han]), List.filter_cons_of_neg (by simp [han]),
        List.cons_append, ← ih hl fun b hb => hn b (List.mem_cons_of_mem a hb)]
    · have hlt : n < a.1 := Nat.lt_of_le_of_ne (hn a List.mem_cons_self) (Ne.symm han)
      have habove : ∀ b ∈ a :: l, n < b.1 := by
        intro b hb
        rcases List.mem_cons.mp hb with rfl | hb
        · exact hlt
        · exact Nat.lt_of_lt_of_le hlt (ha b hb)
      rw [List.filter_eq_nil_iff.mpr fun b hb => by simpa using Nat.ne_of_gt (habove b hb),
        List.filter_eq_self.mpr fun b hb => decide_eq_true (habove b hb), List.nil_append]

/-- The entries with a number are among those above a smaller one. -/
theorem filter_filter_above {n d : Nat} (hd : n < d) (l : List (Nat × β)) :
    (l.filter fun a => n < a.1).filter (·.1 == d) = l.filter (·.1 == d) := by
  rw [List.filter_filter]
  refine List.filter_congr fun a _ => ?_
  by_cases had : a.1 = d
  · simp only [had, beq_self_eq_true, Bool.true_and, decide_eq_true_eq]
    exact hd
  · simp [had]

/-! ## Results for each entry -/

theorem exists_mem_of_forall₂ {R : α → β → Prop} {as : List α} {bs : List β}
    (h : List.Forall₂ R as bs) {a : α} (ha : a ∈ as) : ∃ b ∈ bs, R a b := by
  induction h with
  | nil => cases ha
  | cons hab _ ih =>
    rcases List.mem_cons.mp ha with rfl | ha
    · exact ⟨_, List.mem_cons_self, hab⟩
    · obtain ⟨b, hb, hab⟩ := ih ha
      exact ⟨b, List.mem_cons_of_mem _ hb, hab⟩

theorem map_eq_of_forall₂ {f : β → α} {as : List α} {bs : List β}
    (h : List.Forall₂ (fun a b => a = f b) as bs) : bs.map f = as := by
  rw [← List.forall₂_map_right_iff, List.forall₂_eq_eq_eq] at h
  exact h.symm

/-- Where a function gives something for every entry, it gives one result for each. -/
theorem forall₂_of_mapM_eq_some {f : α → Option β} {as : List α} {bs : List β}
    (h : as.mapM f = some bs) : List.Forall₂ (fun a b => f a = some b) as bs := by
  induction as generalizing bs with
  | nil =>
    cases h
    exact .nil
  | cons a as ih =>
    simp only [List.mapM_cons, Option.bind_eq_bind, Option.bind_eq_some_iff, Option.pure_def,
      Option.some.injEq] at h
    obtain ⟨b, hb, bs', hbs, rfl⟩ := h
    exact .cons hb (ih hbs)

theorem mem_of_mapM_eq_some {f : α → Option β} {as : List α} {bs : List β}
    (h : as.mapM f = some bs) {a : α} (ha : a ∈ as) : ∃ b ∈ bs, f a = some b :=
  exists_mem_of_forall₂ (forall₂_of_mapM_eq_some h) ha

theorem exists_of_mem_mapM {f : α → Option β} {as : List α} {bs : List β}
    (h : as.mapM f = some bs) {b : β} (hb : b ∈ bs) : ∃ a ∈ as, f a = some b :=
  exists_mem_of_forall₂ (forall₂_of_mapM_eq_some h).flip hb

theorem exists_of_mapM_eq_none {f : α → Option β} {as : List α} (h : as.mapM f = none) :
    ∃ a ∈ as, f a = none := by
  induction as with
  | nil => cases h
  | cons a as ih =>
    cases hf : f a with
    | none => exact ⟨a, List.mem_cons_self, hf⟩
    | some b =>
      cases hrest : as.mapM f with
      | none =>
        obtain ⟨a', ha', hnone⟩ := ih hrest
        exact ⟨a', List.mem_cons_of_mem a ha', hnone⟩
      | some bs => simp [List.mapM_cons, hf, hrest] at h

/-! ## Entries that are kept, paired and counted -/

theorem kept_sublist (as : List α) (flags : List Bool) :
    ((as.zip flags).filterMap fun p => if p.2 then some p.1 else none).Sublist as := by
  induction as generalizing flags with
  | nil => exact List.Sublist.refl _
  | cons a as ih =>
    cases flags with
    | nil => exact List.nil_sublist _
    | cons flag flags =>
      cases flag
      · exact (ih flags).cons a
      · exact (ih flags).cons_cons a

theorem exists_mem_of_mem_zipWith {f : α → β → γ} {as : List α} {bs : List β} {c : γ}
    (h : c ∈ as.zipWith f bs) : ∃ a ∈ as, ∃ b ∈ bs, f a b = c := by
  rw [← List.map_uncurry_zip_eq_zipWith] at h
  obtain ⟨⟨a, b⟩, hab, rfl⟩ := List.mem_map.mp h
  obtain ⟨ha, hb⟩ := List.of_mem_zip hab
  exact ⟨a, ha, b, hb, rfl⟩

/-- Two properties that no entry has both of are counted together. -/
theorem countP_or_of_disjoint {p q : α → Bool} {l : List α}
    (h : ∀ a ∈ l, p a = true → q a = false) :
    l.countP p + l.countP q = l.countP fun a => p a || q a := by
  induction l with
  | nil => rfl
  | cons a l ih =>
    have hl := ih fun b hb => h b (List.mem_cons_of_mem a hb)
    have ha := h a List.mem_cons_self
    simp only [List.countP_cons]
    cases hp : p a <;> cases hq : q a <;> simp_all <;> omega

/-- The indices of the entries to which a number is given lead to these entries. -/
theorem filterMap_indices (as : List α) (number : α → Nat) (n : Nat) :
    (((as.map number).zipIdx.filter (·.1 == n)).map Prod.snd).filterMap (as.toArray[·]?) =
      as.filter (number · == n) := by
  have hindices : ((as.map number).zipIdx.filter (·.1 == n)).map Prod.snd =
      (as.zipIdx.filter (number ·.1 == n)).map Prod.snd := by
    rw [List.zipIdx_map, List.filter_map, List.map_map]
    rfl
  have hread : ∀ p ∈ as.zipIdx.filter (number ·.1 == n),
      ((as.toArray[·]?) ∘ Prod.snd) p = (some ∘ Prod.fst) p := by
    intro p hp
    rw [Function.comp_apply, List.getElem?_toArray]
    exact List.mem_zipIdx_iff_getElem?.mp (List.mem_filter.mp hp).1
  rw [hindices, List.filterMap_map, List.filterMap_congr hread, List.filterMap_eq_map]
  conv_rhs => rw [← List.zipIdx_map_fst 0 as, List.filter_map]
  rfl

end SparseVoxel

import Mathlib.Algebra.BigOperators.Group.Finset.Basic

/-!
# Sums over rows and their groups

A sum over rows that ascend by a key, taken over those that satisfy a condition. The condition may come to hold of
one more row (`sumWhere_insert`), the rows may be grouped (`sum_groups`), and a condition that holds of every
predecessor of a row it holds of selects a beginning of the rows (`prefix_of_closed`).
-/

namespace KeyedSums

variable {R K M : Type*}

section Ascending

variable {key : R → ℕ} {rows rows' : List R} {p : R → Prop} [DecidablePred p] {row : R}

/-- Rows in ascending order are determined by what they are. -/
theorem eq_of_mem_iff (h : rows.Pairwise fun a b => key a < key b) (h' : rows'.Pairwise fun a b => key a < key b)
    (hmem : ∀ r, r ∈ rows ↔ r ∈ rows') : rows = rows' := by
  have hperm : rows.Perm rows' := (List.perm_ext_iff_of_nodup (h.imp fun hlt heq => absurd (heq ▸ hlt) (lt_irrefl _))
    (h'.imp fun hlt heq => absurd (heq ▸ hlt) (lt_irrefl _))).2 hmem
  exact hperm.eq_of_pairwise (fun a b _ _ hab hba => absurd (hab.trans hba) (lt_irrefl _)) h h'

/-- One more row, above the others. -/
theorem eq_append_top (h : rows.Pairwise fun a b => key a < key b) (h' : rows'.Pairwise fun a b => key a < key b)
    (htop : ∀ r ∈ rows', key r < key row) (hmem : ∀ r, r ∈ rows ↔ r ∈ rows' ∨ r = row) : rows = rows' ++ [row] := by
  refine eq_of_mem_iff h (List.pairwise_append.2 ⟨h', List.pairwise_singleton _ _, fun a ha b hb => ?_⟩) fun r => ?_
  · rw [List.mem_singleton.1 hb]
    exact htop a ha
  · rw [hmem, List.mem_append, List.mem_singleton]

/-- A condition that passes to the rows before selects a beginning. -/
theorem prefix_of_closed (h : rows.Pairwise fun a b => key a < key b)
    (hclosed : ∀ a ∈ rows, ∀ b ∈ rows, key a < key b → p b → p a) : rows.filter (p ·) <+: rows := by
  induction rows with
  | nil => exact List.prefix_rfl
  | cons r rows ih =>
    rw [List.pairwise_cons] at h
    by_cases hr : p r
    · rw [List.filter_cons_of_pos (by simpa using hr), List.prefix_cons_inj]
      exact ih h.2 fun a ha b hb => hclosed a (.tail _ ha) b (.tail _ hb)
    · -- nothing after the first row can satisfy the condition
      have hnone : rows.filter (p ·) = [] := List.filter_eq_nil_iff.2 fun b hb hpb =>
        hr (hclosed r (.head _) b (.tail _ hb) (h.1 b hb) (of_decide_eq_true hpb))
      rw [List.filter_cons_of_neg (by simpa using hr), hnone]
      exact List.nil_prefix

end Ascending

section Sums

variable [AddCommMonoid M] {f : R → M} {rows : List R} {p q : R → Prop} [DecidablePred p] [DecidablePred q]

/-- The sum over the rows of which the condition holds. -/
def sumWhere (f : R → M) (rows : List R) (p : R → Prop) [DecidablePred p] : M :=
  (rows.map fun r => if p r then f r else 0).sum

/-- Rows that add nothing may be selected or not. -/
theorem sumWhere_congr_of_ne (h : ∀ r ∈ rows, f r ≠ 0 → (p r ↔ q r)) : sumWhere f rows p = sumWhere f rows q := by
  refine congrArg _ (List.map_congr_left fun r hr => ?_)
  by_cases hz : f r = 0
  · rw [hz, ite_self, ite_self]
  · simp only [h r hr hz]

theorem sumWhere_congr (h : ∀ r ∈ rows, p r ↔ q r) : sumWhere f rows p = sumWhere f rows q :=
  sumWhere_congr_of_ne fun r hr _ => h r hr

theorem sumWhere_eq_filter : sumWhere f rows p = ((rows.filter (p ·)).map f).sum := by
  induction rows with
  | nil => rfl
  | cons r rows ih =>
    rw [sumWhere, List.map_cons, List.sum_cons]
    rw [sumWhere] at ih
    by_cases hr : p r
    · rw [if_pos hr, List.filter_cons_of_pos (by simpa using hr), List.map_cons, List.sum_cons, ih]
    · rw [if_neg hr, List.filter_cons_of_neg (by simpa using hr), zero_add, ih]

theorem sumWhere_filter : sumWhere f (rows.filter (q ·)) p = sumWhere f rows fun r => q r ∧ p r := by
  rw [sumWhere_eq_filter, List.filter_filter, sumWhere_eq_filter]
  refine congrArg _ (congrArg _ (List.filter_congr fun r _ => ?_))
  rw [← Bool.decide_and, decide_eq_decide, and_comm]

theorem sumWhere_eq_zero (h : ∀ r ∈ rows, p r → f r = 0) : sumWhere f rows p = 0 := by
  refine List.sum_eq_zero fun x hx => ?_
  obtain ⟨r, hr, rfl⟩ := List.mem_map.1 hx
  by_cases hp : p r
  · rw [if_pos hp, h r hr hp]
  · rw [if_neg hp]

/-- A condition that is one of two which exclude each other. -/
theorem sumWhere_or {p' : R → Prop} [DecidablePred p'] (hor : ∀ r ∈ rows, p' r ↔ p r ∨ q r)
    (hnot : ∀ r ∈ rows, p r → ¬ q r) : sumWhere f rows p' = sumWhere f rows p + sumWhere f rows q := by
  unfold sumWhere
  rw [← List.sum_map_add]
  refine congrArg _ (List.map_congr_left fun r hr => ?_)
  by_cases hp : p r
  · rw [if_pos ((hor r hr).2 (.inl hp)), if_pos hp, if_neg (hnot r hr hp), add_zero]
  · have hiff : p' r ↔ q r := (hor r hr).trans (or_iff_right hp)
    rw [if_neg hp, zero_add]
    simp only [hiff]

variable [DecidableEq K] {group : R → K} {keys keys' : List K} {k : K} {g : K → M} {a : M}

theorem sum_single (hnodup : keys.Nodup) (hk : k ∈ keys) : (keys.map fun k' => if k = k' then a else 0).sum = a := by
  induction keys with
  | nil => cases hk
  | cons k₀ keys ih =>
    rw [List.nodup_cons] at hnodup
    rw [List.map_cons, List.sum_cons]
    by_cases heq : k = k₀
    · subst heq
      rw [if_pos rfl, List.sum_eq_zero, add_zero]
      intro x hx
      obtain ⟨k', hk', rfl⟩ := List.mem_map.1 hx
      exact if_neg fun he : k = k' => hnodup.1 (he ▸ hk')
    · rw [if_neg heq, zero_add, ih hnodup.2 ((List.mem_cons.1 hk).resolve_left heq)]

/-- The condition comes to hold of the one row with a key. -/
theorem sumWhere_insert {key : R → K} {row : R} (hnodup : (rows.map key).Nodup) (hrow : row ∈ rows) (hp : ¬ p row)
    (hq : ∀ r ∈ rows, q r ↔ p r ∨ key r = key row) : sumWhere f rows q = sumWhere f rows p + f row := by
  have hself : ∀ r ∈ rows, key r = key row → r = row := fun r hr he => List.inj_on_of_nodup_map hnodup hr hrow he
  have hsingle : (rows.map fun r => if key row = key r then f row else 0).sum = f row := by
    have := sum_single (a := f row) hnodup (List.mem_map_of_mem (f := key) hrow)
    rwa [List.map_map] at this
  rw [sumWhere, sumWhere, ← hsingle, ← List.sum_map_add]
  refine congrArg _ (List.map_congr_left fun r hr => ?_)
  by_cases he : key r = key row
  · rw [hself r hr he, if_pos ((hq row hrow).2 (.inr rfl)), if_neg hp, if_pos rfl, zero_add]
  · have hiff : q r ↔ p r := by rw [hq r hr]; exact or_iff_left he
    rw [if_neg (Ne.symm he), add_zero]
    simp only [hiff]

/-- A sum is the sum of those of its groups. -/
theorem sum_groups (hnodup : keys.Nodup) (hcover : ∀ r ∈ rows, p r → group r ∈ keys) :
    (keys.map fun k => sumWhere f rows fun r => p r ∧ group r = k).sum = sumWhere f rows p := by
  induction rows with
  | nil => simp [sumWhere]
  | cons r rows ih =>
    have hrest := ih fun r' hr' => hcover r' (.tail _ hr')
    have hcons : ∀ k, sumWhere f (r :: rows) (fun r => p r ∧ group r = k) =
        (if group r = k then (if p r then f r else 0) else 0) + sumWhere f rows fun r => p r ∧ group r = k := by
      intro k
      rw [sumWhere, List.map_cons, List.sum_cons, sumWhere]
      by_cases hp : p r <;> by_cases hk : group r = k <;> simp [hp, hk]
    rw [List.map_congr_left fun k _ => hcons k, List.sum_map_add, hrest]
    have hhead : sumWhere f (r :: rows) p = (if p r then f r else 0) + sumWhere f rows p := by
      rw [sumWhere, List.map_cons, List.sum_cons, sumWhere]
    have hgroup : (keys.map fun k => if group r = k then (if p r then f r else 0) else 0).sum =
        if p r then f r else 0 := by
      by_cases hp : p r
      · exact sum_single hnodup (hcover r (.head _) hp)
      · simp only [if_neg hp, ite_self]
        exact List.sum_eq_zero fun x hx => (List.mem_map.1 hx).elim fun _ h => h.2.symm
    rw [hhead, hgroup]

/-- Keys without a part of the sum may be left out. -/
theorem sum_of_subset (hnodup : keys.Nodup) (hnodup' : keys'.Nodup) (hsub : ∀ k ∈ keys', k ∈ keys)
    (hzero : ∀ k ∈ keys, k ∉ keys' → g k = 0) : (keys.map g).sum = (keys'.map g).sum := by
  rw [← List.sum_toFinset g hnodup, ← List.sum_toFinset g hnodup']
  refine (Finset.sum_subset (fun k hk => ?_) fun k hk hn => ?_).symm
  · exact List.mem_toFinset.2 (hsub k (List.mem_toFinset.1 hk))
  · exact hzero k (List.mem_toFinset.1 hk) fun h => hn (List.mem_toFinset.2 h)

end Sums

end KeyedSums
